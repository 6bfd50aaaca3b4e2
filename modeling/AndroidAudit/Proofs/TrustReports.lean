import Mathlib.Data.List.Forall2
import Mathlib.Data.List.TakeWhile
import AndroidAudit.Proofs.StandardRules
import AndroidAudit.Proofs.TrivialBodies

/-!
# What is reported of trust managers

`MethodReport` says what a method of a class should give, in terms of the interfaces that the class names
and of the kinds of steps that the method takes: a method of a trust manager that accepts everything gives
one finding, and any other method gives none. `checkClass_methods` says that what the standard rules
report of a class is this, method by method, so that methods of one name count one by one.

A finding names the type that declares the method. The class stands in for a declaring type that is left
out, but blanks are not left out, and their dotted form is empty: `insecureTls_named` tells in which
findings the class is missing.
-/

namespace AndroidAudit

/-- Among the interfaces of the class is that of trust managers, however it is spelled. -/
def ClassUnit.IsTrustManager (c : ClassUnit) : Prop :=
  ∃ i ∈ c.interfaces, normalizeTypeName i = "javax.net.ssl.X509TrustManager"

/-- The type that declares a method of a class: the class itself, if the method names none. -/
def ClassUnit.declarer (c : ClassUnit) (m : MethodBody) : String :=
  if m.declaringType = "" then c.name else m.declaringType

/-- A method lets every certificate pass, as these words say. -/
inductive MethodBody.AcceptsAll (m : MethodBody) : String → Prop where
  /-- It names no issuers: it makes and returns null or an array, and takes no other step. -/
  | issuers (hname : m.name = "getAcceptedIssuers") (hsome : (workKinds m.instructions).Nonempty)
      (honly : workKinds m.instructions ⊆ {.pushZero, .pushNull, .allocateArray, .returnReference}) :
      AcceptsAll m (m.name ++ " always returns an empty array or null, which could cause " ++
        "vulnerable TLS certificate checking")
  /-- It does not check: it returns, and takes no other step. -/
  | check (hname : m.name = "checkServerTrusted" ∨ m.name = "checkClientTrusted")
      (hsome : (workKinds m.instructions).Nonempty)
      (honly : workKinds m.instructions ⊆ {.returnVoid}) :
      AcceptsAll m (m.name ++ " is empty, which could cause vulnerable TLS certificate checking")

/-- What a method of a class gives. -/
inductive MethodReport (c : ClassUnit) (m : MethodBody) : List Finding → Prop where
  /-- It is a method of a trust manager and lets every certificate pass. -/
  | flagged {words : String} (htrust : c.IsTrustManager) (haccepts : m.AcceptsAll words) :
      MethodReport c m [{
        ruleId := "InsecureTLS"
        severity := .warning
        location := .method (normalizeTypeName (c.declarer m)) m.name
        message := words }]
  /-- It is not. -/
  | clear (h : c.IsTrustManager → ∀ words, ¬ m.AcceptsAll words) : MethodReport c m []

/-- A method of a class with the type that declares it filled in. -/
def ClassUnit.resolved (c : ClassUnit) (m : MethodBody) : MethodBody :=
  { m with declaringType := c.declarer m }

theorem ClassUnit.resolvedMethods_eq (c : ClassUnit) : c.resolvedMethods = c.methods.map c.resolved := by
  refine List.map_congr_left fun m _ => ?_
  simp only [resolved, declarer, String.isEmpty_iff]
  split <;> rfl

namespace TrustManager

theorem shapeOf?_eq_some {name : String} {shape : ReturnShape} :
    shapeOf? name = some shape ↔ (name = "getAcceptedIssuers" ∧ shape = .emptyArrayOrNull) ∨
      ((name = "checkServerTrusted" ∨ name = "checkClientTrusted") ∧ shape = .voidNoop) := by
  unfold shapeOf?
  by_cases hissuers : name = "getAcceptedIssuers"
  · subst hissuers
    simp [eq_comm]
  · by_cases hcheck : name = "checkServerTrusted" ∨ name = "checkClientTrusted"
    · simp [hissuers, hcheck, eq_comm]
    · simp [hissuers, hcheck]

/-- The methods that are held against a shape and found trivial, and the words on them. -/
theorem acceptsAll_iff {m : MethodBody} {words : String} :
    m.AcceptsAll words ↔ ∃ shape, shapeOf? m.name = some shape ∧
      isTrivial shape m.instructions = true ∧ words = message m.name shape := by
  constructor
  · rintro (⟨hname, hsome, honly⟩ | ⟨hname, hsome, honly⟩)
    · exact ⟨_, shapeOf?_eq_some.mpr (.inl ⟨hname, rfl⟩), isTrivial_iff_kinds.mpr ⟨hsome, honly⟩, rfl⟩
    · exact ⟨_, shapeOf?_eq_some.mpr (.inr ⟨hname, rfl⟩), isTrivial_iff_kinds.mpr ⟨hsome, honly⟩, rfl⟩
  · rintro ⟨shape, hshape, htrivial, rfl⟩
    obtain ⟨hsome, honly⟩ := isTrivial_iff_kinds.mp htrivial
    rcases shapeOf?_eq_some.mp hshape with ⟨hname, rfl⟩ | ⟨hname, rfl⟩
    · exact .issuers hname hsome honly
    · exact .check hname hsome honly

theorem any_interface_iff (c : ClassUnit) :
    (c.interfaces.any fun i => normalizeTypeName i == interfaceName) = true ↔ c.IsTrustManager := by
  simp only [List.any_eq_true, beq_iff_eq, interfaceName, ClassUnit.IsTrustManager]

section

variable {c : ClassUnit}

theorem scan_of_isTrustManager (h : c.IsTrustManager) :
    scan c.interfaces c.resolvedMethods =
      (c.methods.map fun m => (check? (c.resolved m)).toList).flatten := by
  rw [scan, if_pos ((any_interface_iff c).mpr h), c.resolvedMethods_eq, List.filterMap_map,
    List.filterMap_eq_flatMap_toList, List.flatMap_def]
  rfl

theorem scan_of_not_isTrustManager (h : ¬ c.IsTrustManager) :
    scan c.interfaces c.resolvedMethods = [] := by
  rw [scan, if_neg fun hany => h ((any_interface_iff c).mp hany)]

/-- A method of a trust manager gives what is reported of it once its declarer is filled in. -/
theorem methodReport_check? (h : c.IsTrustManager) (m : MethodBody) :
    MethodReport c m (check? (c.resolved m)).toList := by
  cases hcheck : check? (c.resolved m) with
  | some f =>
    obtain ⟨shape, hshape, htrivial, rfl⟩ := check?_eq_some.mp hcheck
    exact .flagged h (acceptsAll_iff.mpr ⟨shape, hshape, htrivial, rfl⟩)
  | none =>
    refine .clear fun _ words haccepts => ?_
    obtain ⟨shape, hshape, htrivial, -⟩ := acceptsAll_iff.mp haccepts
    have hsome : check? (c.resolved m) = some _ := check?_eq_some.mpr ⟨shape, hshape, htrivial, rfl⟩
    rw [hcheck] at hsome
    cases hsome

end

end TrustManager

/-- What the standard rules report of a class is made up of what each of its methods gives, in the order
of the methods. -/
theorem checkClass_methods (c : ClassUnit) :
    ∃ reports : List (List Finding), List.Forall₂ (MethodReport c) c.methods reports ∧
      RuleSet.standard.checkClass c = reports.flatten := by
  rw [RuleSet.checkClass_standard]
  by_cases htrust : c.IsTrustManager
  · refine ⟨_, ?_, TrustManager.scan_of_isTrustManager htrust⟩
    rw [List.forall₂_map_right_iff, List.forall₂_same]
    exact fun m _ => TrustManager.methodReport_check? htrust m
  · -- of another class no method is looked at
    refine ⟨c.methods.map fun _ => [], ?_, ?_⟩
    · rw [List.forall₂_map_right_iff, List.forall₂_same]
      exact fun m _ => .clear fun h => absurd h htrust
    · rw [TrustManager.scan_of_not_isTrustManager htrust]
      simp

-- a method that stands there twice is reported twice, and one of the same name that does work is not
example : (RuleSet.standard.checkClass ⟨"a/Trust", [" javax/net/ssl/X509TrustManager"],
      [⟨"checkServerTrusted", "", [.label, .returnVoid]⟩, ⟨"checkServerTrusted", "", [.other "athrow"]⟩,
        ⟨"checkServerTrusted", "", [.label, .returnVoid]⟩]⟩).map (·.location) =
    [.method "a.Trust" "checkServerTrusted", .method "a.Trust" "checkServerTrusted"] := by
  decide +kernel

/-! ## The classes that findings name -/

/-- A text of blanks only, or of nothing at all. -/
def Text.AllBlank (s : String) : Prop := s.toList.all isBlank = true

instance (s : String) : Decidable (Text.AllBlank s) := inferInstanceAs (Decidable (_ = true))

theorem Text.trim_eq_nil_iff {s : List Char} : trim s = [] ↔ s.all isBlank = true := by
  rw [trim, trimEnd, List.reverse_eq_nil_iff, List.dropWhile_eq_nil_iff, List.all_eq_true]
  simp only [List.mem_reverse]
  refine ⟨fun h => ?_, fun h c hc => h c ((List.dropWhile_suffix isBlank).subset hc)⟩
  -- the first character that is left would be no blank
  have hfirst := List.head?_dropWhile_not isBlank s
  cases hrest : s.dropWhile isBlank with
  | nil => exact List.dropWhile_eq_nil_iff.mp hrest
  | cons c rest =>
    rw [hrest, List.head?_cons] at hfirst
    rw [hrest] at h
    simp [h c List.mem_cons_self] at hfirst

/-- The dotted form of a name is empty if the name has nothing but blanks. -/
theorem normalizeTypeName_eq_empty_iff {s : String} :
    normalizeTypeName s = "" ↔ Text.AllBlank s := by
  rw [normalizeTypeName, String.ofList_eq_empty_iff, List.map_eq_nil_iff, Text.trim_eq_nil_iff]
  rfl

/-- The class stands in for a declarer that is left out, and not for one that is blank. -/
theorem ClassUnit.normalizeTypeName_declarer {c : ClassUnit} (hname : ¬ Text.AllBlank c.name)
    (m : MethodBody) : normalizeTypeName (c.declarer m) = "" ↔
      m.declaringType ≠ "" ∧ Text.AllBlank m.declaringType := by
  rw [normalizeTypeName_eq_empty_iff, declarer]
  split
  · next hempty => simp [hname, hempty]
  · next hgiven => simp [hgiven]

/-- What is reported of a class is what one of its methods gives. -/
theorem methodReport_of_mem_checkClass {c : ClassUnit} {f : Finding}
    (hf : f ∈ RuleSet.standard.checkClass c) :
    ∃ m ∈ c.methods, MethodReport c m [f] ∧
      f.location = .method (normalizeTypeName (c.declarer m)) m.name := by
  rw [RuleSet.checkClass_standard] at hf
  have htrust : c.IsTrustManager := by
    by_contra hother
    rw [TrustManager.scan_of_not_isTrustManager hother] at hf
    cases hf
  obtain ⟨_, hmethod, hcheck⟩ := TrustManager.mem_scan hf
  rw [c.resolvedMethods_eq] at hmethod
  obtain ⟨m, hm, rfl⟩ := List.mem_map.mp hmethod
  have hreport := TrustManager.methodReport_check? htrust m
  rw [hcheck] at hreport
  obtain ⟨shape, -, -, rfl⟩ := TrustManager.check?_eq_some.mp hcheck
  exact ⟨m, hm, hreport, rfl⟩

/-- The findings on trust managers among those on some units are the ones on their classes. -/
theorem mem_scanUnits_insecureTls {config : ProjectConfig} {u : AnalysisUnits} {f : Finding} :
    f ∈ config.scanUnits .standard u ∧ f.ruleId = "InsecureTLS" ↔
      ∃ c ∈ u.classes, f ∈ RuleSet.standard.checkClass c := by
  rw [ProjectConfig.scanUnits, List.mem_append, List.mem_flatMap, List.mem_flatMap]
  constructor
  · rintro ⟨hclass | ⟨site, -, hsite⟩, hid⟩
    · exact hclass
    · rw [RuleSet.checkCall_standard, Option.mem_toList] at hsite
      rw [CallRegistry.ruleId_of_check hsite] at hid
      exact absurd hid (by decide)
  · rintro ⟨c, hc, hf⟩
    refine ⟨.inl ⟨c, hc, hf⟩, ?_⟩
    rw [RuleSet.checkClass_standard] at hf
    exact TrustManager.ruleId_of_mem_scan hf

/-- Of a class with a name, each finding on a trust manager names a class, but for those on a method
whose declaring type is given as blanks. -/
theorem insecureTls_named (config : ProjectConfig) (u : AnalysisUnits) :
    (∀ f, f ∈ config.scanUnits .standard u ∧ f.ruleId = "InsecureTLS" ↔
      ∃ c ∈ u.classes, f ∈ RuleSet.standard.checkClass c) ∧
    ∀ c ∈ u.classes, ¬ Text.AllBlank c.name → ∀ f ∈ RuleSet.standard.checkClass c,
      ∃ m ∈ c.methods, MethodReport c m [f] ∧ ∃ owner, f.location = .method owner m.name ∧
        (owner = "" ↔ m.declaringType ≠ "" ∧ Text.AllBlank m.declaringType) := by
  refine ⟨fun f => mem_scanUnits_insecureTls, fun c _ hname f hf => ?_⟩
  obtain ⟨m, hm, hreport, hlocation⟩ := methodReport_of_mem_checkClass hf
  exact ⟨m, hm, hreport, _, hlocation, c.normalizeTypeName_declarer hname m⟩

/-- A class with a name and a method that leaves its declaring type out. -/
theorem insecureTls_named_trusting :
    let c : ClassUnit := ⟨" a/Trust", ["javax.net.ssl.X509TrustManager"],
      [⟨"checkServerTrusted", "", [.returnVoid]⟩]⟩
    ¬ Text.AllBlank c.name ∧ ∃ f ∈ RuleSet.standard.checkClass c,
      ∃ m ∈ c.methods, MethodReport c m [f] ∧ ∃ owner, f.location = .method owner m.name ∧
        (owner = "" ↔ m.declaringType ≠ "" ∧ Text.AllBlank m.declaringType) := by
  intro c
  have hname : ¬ Text.AllBlank c.name := by decide
  have hlength : (RuleSet.standard.checkClass c).length = 1 := by decide +kernel
  obtain ⟨f, hf⟩ := List.exists_mem_of_length_pos (hlength ▸ Nat.one_pos)
  exact ⟨hname, f, hf, (insecureTls_named (.ofName "demo") ⟨[c], [], []⟩).2 c List.mem_cons_self hname f hf⟩

/-- With a blank for its declaring type, a method of a class with a name is reported without a class. -/
theorem insecureTls_unnamed :
    let c : ClassUnit := ⟨"com/e/TrustAll", ["javax/net/ssl/X509TrustManager"],
      [⟨"checkServerTrusted", " ", [.returnVoid]⟩]⟩
    ¬ Text.AllBlank c.name ∧
      ((ProjectConfig.ofName "p").scanUnits .standard ⟨[c], [], []⟩).map (fun f => (f.ruleId, f.location)) =
        [("InsecureTLS", .method "" "checkServerTrusted")] := by
  decide +kernel

end AndroidAudit
