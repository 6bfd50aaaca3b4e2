/-!
# Code under audit

Method bodies as lists of abstract instructions, the classes that hold them, and the calls found in
source text.

In droidlint `isMarker` and `resolvedMethods` are `is_marker` and `resolved_methods`, and a `CallSite` is a
`ResolvedCallSite`.
-/

namespace AndroidAudit

/-- One step of a method body. Only those that matter to the audit are told apart. -/
inductive Instruction where
  /-- A place that a jump may go to. -/
  | label
  /-- A note of the source line that the next steps come from. -/
  | line (number : Option UInt32)
  | pushZero
  | pushNull
  /-- Pops a length and pushes a new array of that length. -/
  | allocateArray (elementType : String)
  | returnReference
  | returnVoid
  /-- Any other step, which always counts as work. -/
  | other (opcode : String)
  deriving DecidableEq, Repr

/-- Labels and line notes are no steps of their own. -/
def Instruction.isMarker : Instruction → Bool
  | .label | .line _ => true
  | _ => false

/-- A method with its steps in order. -/
structure MethodBody where
  name : String
  /-- The type that declares it. Empty if the class around it does. -/
  declaringType : String
  instructions : List Instruction
  deriving DecidableEq, Repr

/-- A class with the interfaces it names and its methods. -/
structure ClassUnit where
  name : String
  interfaces : List String
  methods : List MethodBody
  deriving DecidableEq, Repr

/-- The methods of a class, each with a declaring type: the class stands in for an empty one. -/
def ClassUnit.resolvedMethods (c : ClassUnit) : List MethodBody :=
  c.methods.map fun m => if m.declaringType.isEmpty then { m with declaringType := c.name } else m

/-- A position in a source file. -/
structure SourceLocation where
  file : String
  line : UInt32
  column : UInt32
  deriving DecidableEq, Repr

/-- A call whose target was looked for. Where it was not found, a part of it is missing. -/
structure CallSite where
  className : Option String
  method : Option String
  location : SourceLocation
  deriving DecidableEq, Repr

/-- One type and, if it is known, the type it extends. -/
structure TypeRecord where
  name : String
  superclass : Option String
  deriving DecidableEq, Repr

end AndroidAudit
