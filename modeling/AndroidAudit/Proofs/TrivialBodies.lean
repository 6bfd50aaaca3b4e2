import Mathlib.Data.Finset.Disjoint
import Mathlib.Data.Finset.Lattice.Lemmas
import Mathlib.Data.Finset.SDiff
import AndroidAudit.Rule.TrustManager

/-!
# What makes a body trivial

Whether a body is trivial for a shape is seen from the kinds of its steps alone, and of these the markers
do not count. `isTrivial_iff_kinds` says so: there is a kind that counts, and all that do are kinds of the
shape. How often a kind occurs, where, with what type or opcode, and between which markers, is no matter
(`isTrivial_of_kinds`).
-/

namespace AndroidAudit

/-- What a step is, whatever it carries. -/
inductive Instruction.Kind where
  | label
  | line
  | pushZero
  | pushNull
  | allocateArray
  | returnReference
  | returnVoid
  | other
  deriving DecidableEq, Repr

/-- The kind of a step. -/
def Instruction.kind : Instruction → Kind
  | .label => .label
  | .line _ => .line
  | .pushZero => .pushZero
  | .pushNull => .pushNull
  | .allocateArray _ => .allocateArray
  | .returnReference => .returnReference
  | .returnVoid => .returnVoid
  | .other _ => .other

/-- The kinds of steps that occur besides the two of markers. -/
def workKinds (steps : List Instruction) : Finset Instruction.Kind :=
  (steps.map Instruction.kind).toFinset \ {.label, .line}

/-- The kinds of steps that a method of a shape takes without doing work. -/
def ReturnShape.kinds : ReturnShape → Finset Instruction.Kind
  | .emptyArrayOrNull => {.pushZero, .pushNull, .allocateArray, .returnReference}
  | .voidNoop => {.returnVoid}

theorem Instruction.isMarker_iff_kind (step : Instruction) :
    step.isMarker = true ↔ step.kind ∈ ({.label, .line} : Finset Kind) := by
  cases step <;> simp [isMarker, kind]

theorem ReturnShape.permits_iff_kind (shape : ReturnShape) (step : Instruction) :
    shape.permits step = true ↔ step.kind ∈ shape.kinds := by
  cases shape <;> cases step <;> simp [permits, kinds, Instruction.kind]

theorem workKinds_eq (steps : List Instruction) :
    workKinds steps = ((realSteps steps).map Instruction.kind).toFinset := by
  ext k
  simp only [workKinds, realSteps, Finset.mem_sdiff, List.mem_toFinset, List.mem_map, List.mem_filter,
    Bool.not_eq_true', ← Bool.not_eq_true, Instruction.isMarker_iff_kind]
  constructor
  · rintro ⟨⟨step, hstep, rfl⟩, hreal⟩
    exact ⟨step, ⟨hstep, hreal⟩, rfl⟩
  · rintro ⟨step, ⟨hstep, hreal⟩, rfl⟩
    exact ⟨⟨step, hstep, rfl⟩, hreal⟩

theorem workKinds_append (a b : List Instruction) : workKinds (a ++ b) = workKinds a ∪ workKinds b := by
  rw [workKinds, List.map_append, List.toFinset_append, Finset.union_sdiff_distrib, ← workKinds, ← workKinds]

theorem isTrivial_iff {shape : ReturnShape} {steps : List Instruction} :
    isTrivial shape steps = true ↔
      realSteps steps ≠ [] ∧ ∀ step ∈ realSteps steps, shape.permits step = true := by
  rw [isTrivial, Bool.and_eq_true, Bool.not_eq_true', List.isEmpty_eq_false_iff, List.all_eq_true]

/-- A body is trivial if it does something and nothing but what the shape allows. -/
theorem isTrivial_iff_kinds {shape : ReturnShape} {steps : List Instruction} :
    isTrivial shape steps = true ↔ (workKinds steps).Nonempty ∧ workKinds steps ⊆ shape.kinds := by
  have hsome : (workKinds steps).Nonempty ↔ realSteps steps ≠ [] := by
    rw [workKinds_eq, List.toFinset_nonempty_iff, ne_eq, List.map_eq_nil_iff]
  have honly : workKinds steps ⊆ shape.kinds ↔
      ∀ step ∈ realSteps steps, shape.permits step = true := by
    simp only [workKinds_eq, ReturnShape.permits_iff_kind, Finset.subset_iff, List.mem_toFinset,
      List.forall_mem_map]
  rw [isTrivial_iff, hsome, honly]

theorem ReturnShape.disjoint_kinds : Disjoint emptyArrayOrNull.kinds voidNoop.kinds := by
  decide

/-- The kinds of the steps decide, and those of markers do not count. Bodies with the same kinds besides
get the same verdict, which for no body is yes for both shapes. If two bodies each have a step that counts,
then one followed by the other is trivial if and only if both are. -/
theorem isTrivial_of_kinds :
    (∀ (shape : ReturnShape) (steps : List Instruction), isTrivial shape steps = true ↔
      (workKinds steps).Nonempty ∧ workKinds steps ⊆ shape.kinds) ∧
    (∀ (shape : ReturnShape) (a b : List Instruction), workKinds a = workKinds b →
      isTrivial shape a = isTrivial shape b) ∧
    (∀ steps : List Instruction,
      ¬ (isTrivial .emptyArrayOrNull steps = true ∧ isTrivial .voidNoop steps = true)) ∧
    ∀ (shape : ReturnShape) (a b : List Instruction), (workKinds a).Nonempty → (workKinds b).Nonempty →
      (isTrivial shape (a ++ b) = true ↔ isTrivial shape a = true ∧ isTrivial shape b = true) := by
  refine ⟨fun shape steps => isTrivial_iff_kinds, fun shape a b hkinds => ?_, fun steps => ?_,
    fun shape a b ha hb => ?_⟩
  · rw [Bool.eq_iff_iff, isTrivial_iff_kinds, isTrivial_iff_kinds, hkinds]
  · rintro ⟨harray, hvoid⟩
    obtain ⟨⟨k, hk⟩, hkarray⟩ := isTrivial_iff_kinds.mp harray
    have hkvoid := (isTrivial_iff_kinds.mp hvoid).2
    exact Finset.disjoint_left.mp ReturnShape.disjoint_kinds (hkarray hk) (hkvoid hk)
  · rw [isTrivial_iff_kinds, isTrivial_iff_kinds, isTrivial_iff_kinds, workKinds_append,
      Finset.union_subset_iff]
    exact ⟨fun h => ⟨⟨ha, h.2.1⟩, hb, h.2.2⟩, fun h => ⟨ha.mono Finset.subset_union_left, h.1.2, h.2.2⟩⟩

/-- An empty array that is made and returned, and the same steps out of order, one of them twice, with
another element type and with markers in between: the two are judged alike, and so is one after the other.
Neither is trivial for a method that returns nothing. -/
theorem isTrivial_of_kinds_shuffled :
    let plain : List Instruction := [.pushZero, .allocateArray "java/lang/String", .returnReference]
    let shuffled : List Instruction :=
      [.label, .returnReference, .line (some 7), .allocateArray "", .pushZero, .line none, .pushZero]
    workKinds plain = workKinds shuffled ∧ isTrivial .emptyArrayOrNull plain = true ∧
      isTrivial .emptyArrayOrNull shuffled = true ∧
      isTrivial .emptyArrayOrNull (plain ++ shuffled) = true ∧ isTrivial .voidNoop shuffled = false := by
  intro plain shuffled
  obtain ⟨hexact, hkinds, hone, happend⟩ := isTrivial_of_kinds
  have hsame : workKinds plain = workKinds shuffled := by decide
  have hplain : isTrivial .emptyArrayOrNull plain = true := (hexact _ _).mpr (by decide)
  have hshuffled : isTrivial .emptyArrayOrNull shuffled = true := by
    rw [← hkinds _ plain shuffled hsame, hplain]
  refine ⟨hsame, hplain, hshuffled, ?_, ?_⟩
  · exact (happend _ plain shuffled (by decide) (by decide)).mpr ⟨hplain, hshuffled⟩
  · exact Bool.eq_false_iff.mpr fun hvoid => hone shuffled ⟨hshuffled, hvoid⟩

end AndroidAudit
