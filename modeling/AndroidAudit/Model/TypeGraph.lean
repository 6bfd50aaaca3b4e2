import AndroidAudit.Model.Code
import AndroidAudit.Model.TypeName
import AndroidAudit.Names.Sorted

/-!
# The type graph

Which type extends which. Types are known by their dotted names, and what is said last of a type
holds. `TypeGraph.isSubclassOf` climbs from a type to those above it, round by round. A climb keeps the
types it has gone on from and stops when it comes to one of them again, so a graph with a ring in it is
no hindrance.

In droidlint `ofRecords`, `superclass?` and `isSubclassOf` are `from_records`, `superclass` and
`is_subclass_of`.
-/

namespace AndroidAudit

/-- The superclass of each type of which it is known. -/
structure TypeGraph where
  /-- Dotted names with the dotted names of their superclasses. -/
  parents : NameMap String
  deriving DecidableEq

namespace TypeGraph

/-- The graph that knows nothing. -/
def empty : TypeGraph := ⟨.empty⟩

/-- The graph that also knows one superclass. -/
def insert (g : TypeGraph) (type superclass : String) : TypeGraph :=
  ⟨g.parents.insert (normalizeTypeName type) (normalizeTypeName superclass)⟩

/-- The graph of some records. A record without a superclass says nothing. -/
def ofRecords (records : List TypeRecord) : TypeGraph :=
  records.foldl (fun g r => match r.superclass with
    | some s => g.insert r.name s
    | none => g) empty

/-- The superclass of a type. -/
def superclass? (g : TypeGraph) (type : String) : Option String :=
  g.parents.get? (normalizeTypeName type)

/-- A climb on its way up. -/
structure Climb where
  /-- The dotted name of the type it has come to. -/
  current : String
  /-- The types it has gone on from. -/
  seen : List String
  deriving DecidableEq, Repr

/-- One round of a climb to a type: an answer, or the climb one type higher. The type that is looked
for is recognised before a repetition is, so a ring does not hide it. -/
def climbOn (g : TypeGraph) (target : String) (c : Climb) : Bool ⊕ Climb :=
  if c.current = target then .inl true
  else if c.seen.contains c.current then .inl false
  else match g.superclass? c.current with
    | some parent => .inr ⟨normalizeTypeName parent, c.current :: c.seen⟩
    | none => .inl false

/-- The answer of a climb, if it comes to one in so many rounds. -/
def climb? (g : TypeGraph) (target : String) : Nat → Climb → Option Bool
  | 0, _ => none
  | rounds + 1, c => match g.climbOn target c with
    | .inl answer => some answer
    | .inr higher => g.climb? target rounds higher

/-- Whether a type is another one or extends it, directly or not. A climb goes on from no type twice,
so it ends one round after it has gone on from each type of the graph, if not before. -/
def isSubclassOf (g : TypeGraph) (type ancestor : String) : Bool :=
  (g.climb? (normalizeTypeName ancestor) (g.parents.entries.length + 1)
    ⟨normalizeTypeName type, []⟩).getD false

end TypeGraph

end AndroidAudit
