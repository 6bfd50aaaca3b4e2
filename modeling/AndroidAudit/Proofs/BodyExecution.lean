import Mathlib.Data.List.Infix
import Mathlib.Logic.Relation
import AndroidAudit.Proofs.TrivialBodies

/-!
# What trivial bodies do when they are run

`Execution.Advances` runs a body step by step, in order, on a stack of operands. A step of which only the
opcode is known may do anything to the stack, or return anything. `isTrivial` looks neither at the order
of steps nor at their number, so what it tells of runs rests on what holds in every state:

* the steps for an empty array or null, in any order, put nothing but zero, null and empty arrays on the
  stack (`Execution.Hollow`);
* a run that is to return nothing only passes markers before it does (`runs_void_iff`).

`runs_of_isTrivial` says what runs return.
-/

namespace AndroidAudit

open Relation (ReflTransGen)

/-! ## Runs -/

/-- What stands on the stack. -/
inductive Operand where
  | int (value : Int)
  | null
  | array (elementType : String) (length : Nat)
  /-- A reference to anything else. -/
  | object
  deriving DecidableEq, Repr

/-- All operands but numbers are references. -/
def Operand.isReference : Operand → Bool
  | .int _ => false
  | .null | .array _ _ | .object => true

/-- How far the run of a body has come. -/
inductive Execution where
  /-- These steps are left to be taken, and this is the stack. -/
  | running (rest : List Instruction) (stack : List Operand)
  /-- The run is over. It has given back the result, if any, and left the rest of the stack. -/
  | returned (result : Option Operand) (stack : List Operand)
  deriving DecidableEq, Repr

namespace Execution

/-- One step of a run. A step that finds no operand of the right kind on the stack is not taken. -/
inductive Advances : Execution → Execution → Prop where
  | label {rest : List Instruction} {stack : List Operand} :
      Advances (.running (.label :: rest) stack) (.running rest stack)
  | line {number : Option UInt32} {rest : List Instruction} {stack : List Operand} :
      Advances (.running (.line number :: rest) stack) (.running rest stack)
  | pushZero {rest : List Instruction} {stack : List Operand} :
      Advances (.running (.pushZero :: rest) stack) (.running rest (.int 0 :: stack))
  | pushNull {rest : List Instruction} {stack : List Operand} :
      Advances (.running (.pushNull :: rest) stack) (.running rest (.null :: stack))
  | allocateArray {elementType : String} {length : Nat} {rest : List Instruction}
      {stack : List Operand} :
      Advances (.running (.allocateArray elementType :: rest) (.int length :: stack))
        (.running rest (.array elementType length :: stack))
  | returnReference {result : Operand} (h : result.isReference = true) {rest : List Instruction}
      {stack : List Operand} :
      Advances (.running (.returnReference :: rest) (result :: stack)) (.returned (some result) stack)
  | returnVoid {rest : List Instruction} {stack : List Operand} :
      Advances (.running (.returnVoid :: rest) stack) (.returned none stack)
  -- nothing is known of other steps, so that they may do anything
  | other {opcode : String} {rest : List Instruction} {stack stack' : List Operand} :
      Advances (.running (.other opcode :: rest) stack) (.running rest stack')
  | otherReturn {opcode : String} {rest : List Instruction} {stack stack' : List Operand}
      {result : Option Operand} :
      Advances (.running (.other opcode :: rest) stack) (.returned result stack')

/-- Any number of steps of a run. -/
abbrev Runs : Execution → Execution → Prop := ReflTransGen Advances

end Execution

theorem forall_of_isTrivial {shape : ReturnShape} {steps : List Instruction}
    (h : isTrivial shape steps = true) :
    ∀ step ∈ steps, step.isMarker = true ∨ shape.permits step = true := by
  obtain ⟨-, hall⟩ := isTrivial_iff.mp h
  intro step hstep
  by_cases hmarker : step.isMarker = true
  · exact .inl hmarker
  · have hreal : step ∈ realSteps steps := List.mem_filter.mpr ⟨hstep, by simpa using hmarker⟩
    exact .inr (hall step hreal)

/-! ## Runs that return an empty array or null -/

/-- Zero, null and empty arrays. -/
inductive Operand.Hollow : Operand → Prop where
  | zero : Hollow (.int 0)
  | null : Hollow .null
  | array (elementType : String) : Hollow (.array elementType 0)

/-- What holds throughout a run that takes only the steps for an empty array or null. -/
inductive Execution.Hollow : Execution → Prop where
  | running {rest : List Instruction} {stack : List Operand}
      (hsteps : ∀ step ∈ rest, step.isMarker = true ∨ ReturnShape.emptyArrayOrNull.permits step = true)
      (hstack : ∀ operand ∈ stack, operand.Hollow) : Hollow (.running rest stack)
  | returned {result : Operand} {stack : List Operand} (href : result.isReference = true)
      (hresult : result.Hollow) : Hollow (.returned (some result) stack)

theorem Operand.Hollow.of_isReference {operand : Operand} (h : operand.Hollow)
    (href : operand.isReference = true) :
    operand = .null ∨ ∃ elementType, operand = .array elementType 0 := by
  cases h with
  | zero => cases href
  | null => exact .inl rfl
  | array elementType => exact .inr ⟨elementType, rfl⟩

namespace Execution

variable {e e' : Execution}

theorem Hollow.of_running {step : Instruction} {rest : List Instruction} {stack : List Operand}
    (h : Hollow (.running (step :: rest) stack)) :
    (step.isMarker = true ∨ ReturnShape.emptyArrayOrNull.permits step = true) ∧
      (∀ operand ∈ stack, operand.Hollow) ∧
      ∀ stack', (∀ operand ∈ stack', operand.Hollow) → Hollow (.running rest stack') := by
  cases h with
  | running hsteps hstack =>
    obtain ⟨hstep, hrest⟩ := List.forall_mem_cons.mp hsteps
    exact ⟨hstep, hstack, fun _ hstack' => .running hrest hstack'⟩

theorem Hollow.advances (h : e.Hollow) (hstep : e.Advances e') : e'.Hollow := by
  cases e with
  | returned => cases hstep
  | running steps stack =>
    cases steps with
    | nil => cases hstep
    | cons step rest =>
      obtain ⟨hpermits, hstack, hgoes⟩ := h.of_running
      cases hstep with
      | label | line => exact hgoes _ hstack
      | pushZero => exact hgoes _ (List.forall_mem_cons.mpr ⟨.zero, hstack⟩)
      | pushNull => exact hgoes _ (List.forall_mem_cons.mpr ⟨.null, hstack⟩)
      | allocateArray =>
        -- the length is a number on the stack, and there is none but zero
        obtain ⟨hlength, hbelow⟩ := List.forall_mem_cons.mp hstack
        cases hlength
        exact hgoes _ (List.forall_mem_cons.mpr ⟨.array _, hbelow⟩)
      | returnReference href => exact .returned href (hstack _ List.mem_cons_self)
      | returnVoid | other | otherReturn => simp [Instruction.isMarker, ReturnShape.permits] at hpermits

theorem Hollow.runs (h : e.Hollow) (hruns : e.Runs e') : e'.Hollow := by
  induction hruns with
  | refl => exact h
  | tail _ hstep ih => exact ih.advances hstep

/-! ## Runs that return nothing -/

/-- Where only one step can be taken, a run has not begun or goes through what that step leads to. -/
theorem runs_iff_of_advances_iff {next : Execution} (h : ∀ x, e.Advances x ↔ x = next) :
    e.Runs e' ↔ e' = e ∨ next.Runs e' := by
  rw [Runs, ReflTransGen.cases_head_iff, eq_comm]
  simp only [h, exists_eq_left]

section

variable {rest : List Instruction} {stack : List Operand}

/-- A marker is passed, and the stack stays as it is. -/
theorem advances_marker_iff {step : Instruction} (h : step.isMarker = true) :
    Advances (.running (step :: rest) stack) e ↔ e = .running rest stack := by
  constructor
  · intro hstep
    cases hstep with
    | label | line => rfl
    | _ => cases h
  · rintro rfl
    cases step with
    | label => exact .label
    | line => exact .line
    | _ => cases h

theorem advances_returnVoid_iff :
    Advances (.running (.returnVoid :: rest) stack) e ↔ e = .returned none stack := by
  constructor
  · intro hstep
    cases hstep
    rfl
  · rintro rfl
    exact .returnVoid

theorem runs_returned_iff {result : Option Operand} :
    Runs (.returned result stack) e ↔ e = .returned result stack := by
  rw [Runs, ReflTransGen.cases_head_iff, eq_comm, or_iff_left]
  rintro ⟨next, hstep, -⟩
  cases hstep

/-- The states of a run that passes markers and then returns nothing: it is before one of the markers,
or before the return, or done, and the stack is as it was at the start. -/
theorem runs_void_iff {markers : List Instruction} (h : ∀ step ∈ markers, step.isMarker = true) :
    Runs (.running (markers ++ .returnVoid :: rest) stack) e ↔
      (∃ left, left <:+ markers ∧ e = .running (left ++ .returnVoid :: rest) stack) ∨
        e = .returned none stack := by
  induction markers with
  | nil =>
    rw [List.nil_append, runs_iff_of_advances_iff fun _ => advances_returnVoid_iff, runs_returned_iff]
    simp
  | cons marker markers ih =>
    obtain ⟨hmarker, hmarkers⟩ := List.forall_mem_cons.mp h
    rw [List.cons_append, runs_iff_of_advances_iff fun _ => advances_marker_iff hmarker, ih hmarkers,
      ← or_assoc]
    simp only [List.suffix_cons_iff, or_and_right, exists_or, exists_eq_left, List.cons_append]

end

end Execution

theorem ReturnShape.eq_returnVoid_of_permits {step : Instruction}
    (h : voidNoop.permits step = true) : step = .returnVoid := by
  cases step with
  | returnVoid => rfl
  | _ => cases h

/-- A trivial body that returns nothing has only markers before it does. -/
theorem markers_of_isTrivial_voidNoop {steps : List Instruction}
    (h : isTrivial .voidNoop steps = true) : ∃ markers rest,
      steps = markers ++ .returnVoid :: rest ∧ ∀ step ∈ markers, step.isMarker = true := by
  obtain ⟨hsome, hall⟩ := isTrivial_iff.mp h
  obtain ⟨first, others, hreal⟩ := List.exists_cons_of_ne_nil hsome
  have hfirst : first = .returnVoid := by
    apply ReturnShape.eq_returnVoid_of_permits
    exact hall first (hreal ▸ List.mem_cons_self)
  obtain ⟨markers, rest, hsteps, hmarkers, -, -⟩ := List.filter_eq_cons_iff.mp hreal
  exact ⟨markers, rest, hfirst ▸ hsteps, by simpa using hmarkers⟩

/-- What trivial bodies do. If the steps are those for an empty array or null, then a run from an empty
stack that returns, returns null or an array without elements. If they are those for nothing, then the
first step that is no marker returns nothing. A run gets there and leaves the stack as it was, and it
comes through no other state. -/
theorem runs_of_isTrivial :
    (∀ steps, isTrivial .emptyArrayOrNull steps = true → ∀ result stack,
      Execution.Runs (.running steps []) (.returned result stack) →
        result = some .null ∨ ∃ elementType, result = some (.array elementType 0)) ∧
    ∀ steps, isTrivial .voidNoop steps = true → ∃ markers rest,
      steps = markers ++ .returnVoid :: rest ∧ (∀ step ∈ markers, step.isMarker = true) ∧
      ∀ stack e, Execution.Runs (.running steps stack) e ↔
        (∃ left, left <:+ markers ∧ e = .running (left ++ .returnVoid :: rest) stack) ∨
          e = .returned none stack := by
  refine ⟨fun steps htrivial result stack hruns => ?_, fun steps htrivial => ?_⟩
  · have hstart : Execution.Hollow (.running steps []) :=
      .running (forall_of_isTrivial htrivial) (List.forall_mem_nil _)
    cases hstart.runs hruns with
    | returned href hresult =>
      simpa using hresult.of_isReference href
  · obtain ⟨markers, rest, rfl, hmarkers⟩ := markers_of_isTrivial_voidNoop htrivial
    exact ⟨markers, rest, rfl, hmarkers, fun stack e => Execution.runs_void_iff hmarkers⟩

/-- A null and a zero lie unused below the array that is returned, and the steps behind the return are
never taken. In the other body the return stands between markers. -/
theorem runs_of_isTrivial_shuffled :
    let steps : List Instruction :=
      [.pushNull, .line (some 3), .pushZero, .pushZero, .allocateArray "java/lang/Object",
        .returnReference, .pushNull, .returnReference]
    let noop : List Instruction := [.label, .line none, .returnVoid, .label, .returnVoid]
    let result : Operand := .array "java/lang/Object" 0
    isTrivial .emptyArrayOrNull steps = true ∧
      Execution.Runs (.running steps []) (.returned (some result) [.int 0, .null]) ∧
      (some result = some .null ∨ ∃ elementType, some result = some (.array elementType 0)) ∧
    isTrivial .voidNoop noop = true ∧
      Execution.Runs (.running noop [result]) (.returned none [result]) := by
  intro steps noop result
  have hsteps : isTrivial .emptyArrayOrNull steps = true := by decide
  have hnoop : isTrivial .voidNoop noop = true := by decide
  have hruns : Execution.Runs (.running steps []) (.returned (some result) [.int 0, .null]) :=
    .head .pushNull (.head .line (.head .pushZero (.head .pushZero
      (.head (@Execution.Advances.allocateArray _ 0 _ _) (.single (.returnReference rfl))))))
  refine ⟨hsteps, hruns, runs_of_isTrivial.1 steps hsteps _ _ hruns, hnoop, ?_⟩
  obtain ⟨markers, rest, -, -, hstates⟩ := runs_of_isTrivial.2 noop hnoop
  exact (hstates _ _).mpr (.inr rfl)

end AndroidAudit
