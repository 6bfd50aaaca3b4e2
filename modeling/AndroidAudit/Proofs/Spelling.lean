import Mathlib.Data.List.Forall2
import AndroidAudit.Proofs.CallReports

/-!
# Type names in other spellings

A type may be spelled with dots or with slashes and between blanks, and each place that names it may
spell it in its own way. `scanUnits_respelled` says that what the standard rules report of some units
does not depend on the spelling, neither of the units nor of the unsafe calls of the project: each
name is brought to its dotted form before it is compared, stored or reported. The one question that
is asked of a spelling is whether it is empty, since the class stands in for a declaring type that is
left out.

The relations `Respelled` say which parts are names of types. For each part of an audit a lemma says
that it is alike on respelled input, from methods (`TrustManager.check?_respelled`) and records
(`TypeGraph.ofRecords_respelled`) up.
-/

namespace AndroidAudit

/-! ## Spellings -/

/-- Two spellings of one type. -/
def SameType (a b : String) : Prop := normalizeTypeName a = normalizeTypeName b

instance (a b : String) : Decidable (SameType a b) := inferInstanceAs (Decidable (_ = _))

/-- A method whose declaring type is spelled in another way, and left out in both or in neither. -/
structure MethodBody.Respelled (m m' : MethodBody) : Prop where
  name : m.name = m'.name
  instructions : m.instructions = m'.instructions
  declaringType : SameType m.declaringType m'.declaringType
  left_out : m.declaringType = "" ↔ m'.declaringType = ""

/-- A class with its own name, its interfaces and the types in its methods spelled in another way. -/
structure ClassUnit.Respelled (c c' : ClassUnit) : Prop where
  name : SameType c.name c'.name
  interfaces : List.Forall₂ SameType c.interfaces c'.interfaces
  methods : List.Forall₂ MethodBody.Respelled c.methods c'.methods

/-- A record with both its types spelled in another way. -/
structure TypeRecord.Respelled (r r' : TypeRecord) : Prop where
  name : SameType r.name r'.name
  superclass : Option.Rel SameType r.superclass r'.superclass

/-- A call with its class spelled in another way. -/
structure CallSite.Respelled (s s' : CallSite) : Prop where
  className : Option.Rel SameType s.className s'.className
  method : s.method = s'.method
  location : s.location = s'.location

/-- An unsafe call with its class spelled in another way. -/
structure UnsafeCall.Respelled (u u' : UnsafeCall) : Prop where
  className : SameType u.className u'.className
  methods : u.methods = u'.methods
  alternative : u.alternative = u'.alternative

/-- Units with the types in them spelled in another way. -/
structure AnalysisUnits.Respelled (u u' : AnalysisUnits) : Prop where
  classes : List.Forall₂ ClassUnit.Respelled u.classes u'.classes
  types : List.Forall₂ TypeRecord.Respelled u.types u'.types
  callSites : List.Forall₂ CallSite.Respelled u.callSites u'.callSites

/-- Settings that differ in the spelling of the classes of their unsafe calls alone. -/
structure ProjectConfig.Respelled (c c' : ProjectConfig) : Prop where
  unsafeCalls : List.Forall₂ UnsafeCall.Respelled c.unsafeCalls c'.unsafeCalls
  others : { c with unsafeCalls := c'.unsafeCalls } = c'

theorem UnsafeCall.Respelled.refl (u : UnsafeCall) : u.Respelled u := ⟨rfl, rfl, rfl⟩

section

variable {α β γ : Type} {R : α → β → Prop} {as : List α} {bs : List β}

theorem map_eq_of_forall₂ {f : α → γ} {g : β → γ} (h : ∀ a b, R a b → f a = g b)
    (hl : List.Forall₂ R as bs) : as.map f = bs.map g := by
  rw [← List.forall₂_eq_eq_eq, List.forall₂_map_left_iff, List.forall₂_map_right_iff]
  exact hl.imp h

theorem filterMap_eq_of_forall₂ {f : α → Option γ} {g : β → Option γ} (h : ∀ a b, R a b → f a = g b)
    (hl : List.Forall₂ R as bs) : as.filterMap f = bs.filterMap g := by
  induction hl with
  | nil => rfl
  | cons hab _ ih => rw [List.filterMap_cons, List.filterMap_cons, h _ _ hab, ih]

end

/-! ## Classes -/

theorem TrustManager.check?_respelled {m m' : MethodBody} (hname : m.name = m'.name)
    (hsteps : m.instructions = m'.instructions) (htype : SameType m.declaringType m'.declaringType) :
    check? m = check? m' := by
  have htype : normalizeTypeName m.declaringType = normalizeTypeName m'.declaringType := htype
  rw [check?, check?, hname, hsteps, htype]

namespace ClassUnit.Respelled

variable {c c' : ClassUnit}

/-- Of each method the same is reported, with the class standing in for a type that is left out. -/
theorem resolvedMethods (h : c.Respelled c') :
    List.Forall₂ (fun m m' => TrustManager.check? m = TrustManager.check? m')
      c.resolvedMethods c'.resolvedMethods := by
  rw [ClassUnit.resolvedMethods, ClassUnit.resolvedMethods, List.forall₂_map_left_iff,
    List.forall₂_map_right_iff]
  refine h.methods.imp fun m m' hm => ?_
  have hempty : m.declaringType.isEmpty = m'.declaringType.isEmpty := by
    rw [Bool.eq_iff_iff, String.isEmpty_iff, String.isEmpty_iff]
    exact hm.left_out
  rw [hempty]
  split
  · exact TrustManager.check?_respelled hm.name hm.instructions h.name
  · exact TrustManager.check?_respelled hm.name hm.instructions hm.declaringType

theorem scan (h : c.Respelled c') : TrustManager.scan c.interfaces c.resolvedMethods =
    TrustManager.scan c'.interfaces c'.resolvedMethods := by
  have hinterfaces : c.interfaces.map normalizeTypeName = c'.interfaces.map normalizeTypeName :=
    map_eq_of_forall₂ (fun _ _ hi => hi) h.interfaces
  have hany (names : List String) :
      (names.any fun i => normalizeTypeName i == TrustManager.interfaceName) =
        (names.map normalizeTypeName).any (· == TrustManager.interfaceName) := by
    simp only [List.any_map, Function.comp_def]
  rw [TrustManager.scan, TrustManager.scan, hany, hany, hinterfaces,
    filterMap_eq_of_forall₂ (fun _ _ hm => hm) h.resolvedMethods]

end ClassUnit.Respelled

theorem classFindings_respelled {classes classes' : List ClassUnit}
    (h : List.Forall₂ ClassUnit.Respelled classes classes') :
    classFindings classes = classFindings classes' := by
  rw [classFindings, classFindings, List.flatMap_def, List.flatMap_def]
  exact congrArg List.flatten (map_eq_of_forall₂ (fun _ _ hc => hc.scan) h)

/-! ## Calls -/

namespace TypeGraph

/-- Records in other spellings make the same graph. -/
theorem ofRecords_respelled {records records' : List TypeRecord}
    (h : List.Forall₂ TypeRecord.Respelled records records') :
    ofRecords records = ofRecords records' := by
  refine List.rel_foldl (P := Eq) ?_ rfl h
  rintro g _ rfl ⟨name, superclass⟩ ⟨name', superclass'⟩ ⟨hname, hsuper⟩
  cases hsuper with
  | none => rfl
  | @some spelled spelled' hspelled =>
    have hname : normalizeTypeName name = normalizeTypeName name' := hname
    have hspelled : normalizeTypeName spelled = normalizeTypeName spelled' := hspelled
    simp only [insert, hname, hspelled]

theorem isSubclassOf_respelled (g : TypeGraph) {type type' ancestor ancestor' : String}
    (htype : SameType type type') (hancestor : SameType ancestor ancestor') :
    g.isSubclassOf type ancestor = g.isSubclassOf type' ancestor' := by
  have htype : normalizeTypeName type = normalizeTypeName type' := htype
  have hancestor : normalizeTypeName ancestor = normalizeTypeName ancestor' := hancestor
  rw [isSubclassOf, isSubclassOf, htype, hancestor]

end TypeGraph

namespace CallRegistry

variable {r r' : CallRegistry}

/-- The first entry that fits stands at the same place in both registries, and has the same to be called
instead. -/
theorem find?_respelled {targets targets' : List UnsafeCall}
    (h : List.Forall₂ UnsafeCall.Respelled targets targets') (g : TypeGraph)
    {className className' : String} (hclass : SameType className className') (method : String) :
    ((mk targets).find? g.isSubclassOf className method).map (·.alternative) =
      ((mk targets').find? g.isSubclassOf className' method).map (·.alternative) := by
  rw [find?, find?]
  induction h with
  | nil => rw [List.find?_nil, List.find?_nil]
  | cons ht _ ih =>
    rw [List.find?_cons, List.find?_cons, ht.methods, g.isSubclassOf_respelled hclass ht.className]
    split
    · exact congrArg some ht.alternative
    · exact ih

theorem check?_eq_map (r : CallRegistry) (isBelow : String → String → Bool) (className method : String)
    (location : SourceLocation) :
    r.check? isBelow ⟨some className, some method, location⟩ =
      ((r.find? isBelow className method).map (·.alternative)).map (loadFinding location method) := by
  simp only [check?, Option.map_map]
  rfl

theorem check?_respelled (h : List.Forall₂ UnsafeCall.Respelled r.targets r'.targets) (g : TypeGraph)
    {site site' : CallSite} (hsite : site.Respelled site') :
    r.check? g.isSubclassOf site = r'.check? g.isSubclassOf site' := by
  obtain ⟨className, method, location⟩ := site
  obtain ⟨className', method', location'⟩ := site'
  obtain ⟨hclass, rfl, rfl⟩ := hsite
  cases hclass with
  | none => rfl
  | some hclass =>
    cases method with
    | none => rfl
    | some method => rw [check?_eq_map, check?_eq_map, find?_respelled h g hclass method]

end CallRegistry

theorem ProjectConfig.Respelled.targets {c c' : ProjectConfig} (h : c.Respelled c') :
    List.Forall₂ UnsafeCall.Respelled c.callRegistry.targets c'.callRegistry.targets := by
  rw [CallRegistry.targets_callRegistry, CallRegistry.targets_callRegistry]
  exact List.rel_append (List.forall₂_same.mpr fun u _ => .refl u) h.unsafeCalls

/-- What is reported of some units stays the same when the types in them, and those in the unsafe calls
of the project, are spelled in other ways, each where it stands. -/
theorem scanUnits_respelled (c c' : ProjectConfig) (u u' : AnalysisUnits) (hc : c.Respelled c')
    (hu : u.Respelled u') : c.scanUnits .standard u = c'.scanUnits .standard u' := by
  have hgraph : u.typeGraph = u'.typeGraph := TypeGraph.ofRecords_respelled hu.types
  have hcalls : callFindings c.callRegistry u'.typeGraph u.callSites =
      callFindings c'.callRegistry u'.typeGraph u'.callSites :=
    filterMap_eq_of_forall₂ (fun _ _ => CallRegistry.check?_respelled hc.targets u'.typeGraph)
      hu.callSites
  rw [scanUnits_standard, scanUnits_standard, classFindings_respelled hu.classes, hgraph, hcalls]

/-- With slashes here, with dots there and with blanks around, the three findings are the same. -/
theorem scanUnits_respelled_demo :
    let c := ProjectConfig.ofName "demo"
    let slashed : ProjectConfig :=
      { c with unsafeCalls := [⟨"a/Loader", .ofList ["attach"], "connect"⟩] }
    let dotted : ProjectConfig :=
      { c with unsafeCalls := [⟨" a.Loader\n", .ofList ["attach"], "connect"⟩] }
    let u : AnalysisUnits :=
      ⟨[⟨"a/Trust", ["javax/net/ssl/X509TrustManager"],
          [⟨"checkServerTrusted", "", [.returnVoid]⟩,
            ⟨"checkClientTrusted", "a/Base", [.returnVoid]⟩]⟩],
        [⟨"a/Plugins", some "a/Loader"⟩], [⟨some "a/Plugins", some "attach", ⟨"P.kt", 3, 5⟩⟩]⟩
    let v : AnalysisUnits :=
      ⟨[⟨"a.Trust", [" javax/net.ssl/X509TrustManager"],
          [⟨"checkServerTrusted", "", [.returnVoid]⟩,
            ⟨"checkClientTrusted", " a.Base ", [.returnVoid]⟩]⟩],
        [⟨"a.Plugins\t", some "a.Loader"⟩], [⟨some " a.Plugins", some "attach", ⟨"P.kt", 3, 5⟩⟩]⟩
    slashed.Respelled dotted ∧ u.Respelled v ∧
      slashed.scanUnits .standard u = dotted.scanUnits .standard v ∧
      (dotted.scanUnits .standard v).length = 3 := by
  intro c slashed dotted u v
  have hc : slashed.Respelled dotted := ⟨.cons ⟨by decide +kernel, rfl, rfl⟩ .nil, rfl⟩
  have hserver : MethodBody.Respelled ⟨"checkServerTrusted", "", [.returnVoid]⟩
      ⟨"checkServerTrusted", "", [.returnVoid]⟩ := ⟨rfl, rfl, rfl, .rfl⟩
  have hclient : MethodBody.Respelled ⟨"checkClientTrusted", "a/Base", [.returnVoid]⟩
      ⟨"checkClientTrusted", " a.Base ", [.returnVoid]⟩ :=
    ⟨rfl, rfl, by decide +kernel, by decide⟩
  have hu : u.Respelled v :=
    { classes := .cons ⟨by decide +kernel, .cons (by decide +kernel) .nil,
        .cons hserver (.cons hclient .nil)⟩ .nil
      types := .cons ⟨by decide +kernel, .some (by decide +kernel)⟩ .nil
      callSites := .cons ⟨.some (by decide +kernel), rfl, rfl⟩ .nil }
  exact ⟨hc, hu, scanUnits_respelled slashed dotted u v hc hu, by decide +kernel⟩

end AndroidAudit
