import Mathlib.Data.List.Basic
import AndroidAudit.Audit.Scan
import AndroidAudit.Proofs.FindingOrder

/-!
# The findings of the standard rules

Each of the three standard rules looks at one kind of thing (`checkClass_standard`,
`checkCall_standard`, `checkFile_standard`) and reports one issue (`ruleId_of_mem_scan`,
`ruleId_of_check`, `classify?_eq_some`). The key of a finding tells the whole of it, for two reasons
that differ from rule to rule: the words on a method follow from its name, and those on a file from
its path (`eq_of_check_of_key`, `eq_of_classify_of_key`). The words on a call also name what to call
instead, so for calls this holds of the registry that always applies (`eq_of_builtin_of_key`).
-/

namespace AndroidAudit

namespace RuleSet

theorem checkClass_standard (c : ClassUnit) :
    standard.checkClass c = TrustManager.scan c.interfaces c.resolvedMethods := by
  simp [checkClass, standard, Check.onClass, Check.trustManager, Check.unsafeCall, Check.nativeCode]

theorem checkCall_standard (calls : CallRegistry) (types : TypeGraph) (site : CallSite) :
    standard.checkCall calls types site = (calls.check? types.isSubclassOf site).toList := by
  simp [checkCall, standard, Check.onCall, Check.trustManager, Check.unsafeCall, Check.nativeCode]

theorem checkFile_standard (policy : NativeCodePolicy) (t : FileTree) (root path : Path) :
    standard.checkFile policy t root path = (policy.checkFile? t root path).toList := by
  simp [checkFile, standard, Check.onFile, Check.trustManager, Check.unsafeCall, Check.nativeCode]

theorem hasFileRules_standard : standard.hasFileRules = true := rfl

end RuleSet

/-! ## Trust managers -/

namespace TrustManager

/-- What is reported of a method. -/
theorem check?_eq_some {m : MethodBody} {f : Finding} :
    check? m = some f ↔ ∃ shape, shapeOf? m.name = some shape ∧ isTrivial shape m.instructions = true ∧
      f = ⟨Issue.insecureTls.id, Issue.insecureTls.defaultSeverity,
        .method (normalizeTypeName m.declaringType) m.name, message m.name shape, []⟩ := by
  unfold check?
  cases hs : shapeOf? m.name with
  | none => simp
  | some shape =>
    simp only [Option.some.injEq, exists_eq_left']
    by_cases ht : isTrivial shape m.instructions = true
    · simp only [ht, if_true, true_and, Option.some.injEq]
      exact eq_comm
    · simp only [ht, Bool.false_eq_true, if_false, false_and, reduceCtorEq]

theorem mem_scan {interfaces : List String} {methods : List MethodBody} {f : Finding}
    (h : f ∈ scan interfaces methods) : ∃ m ∈ methods, check? m = some f := by
  unfold scan at h
  split at h
  · exact List.mem_filterMap.mp h
  · cases h

theorem ruleId_of_mem_scan {interfaces : List String} {methods : List MethodBody} {f : Finding}
    (h : f ∈ scan interfaces methods) : f.ruleId = Issue.insecureTls.id := by
  obtain ⟨m, _, hm⟩ := mem_scan h
  obtain ⟨shape, _, _, rfl⟩ := check?_eq_some.mp hm
  rfl

/-- The name of a method decides on the shape it is held against, and so on the words. -/
theorem eq_of_check_of_key {m n : MethodBody} {f g : Finding} (hf : check? m = some f)
    (hg : check? n = some g) (h : f.key = g.key) : f = g := by
  obtain ⟨s, hs, _, rfl⟩ := check?_eq_some.mp hf
  obtain ⟨s', hs', _, rfl⟩ := check?_eq_some.mp hg
  simp only [Finding.key, Prod.mk.injEq, Location.method.injEq, true_and] at h
  obtain ⟨hc, hn⟩ := h
  have hsh : s = s' := by
    rw [hn, hs'] at hs
    exact (Option.some.inj hs).symm
  rw [hc, hn, hsh]

end TrustManager

/-! ## Calls -/

namespace CallRegistry

/-- What is reported of a call. -/
theorem check?_eq_some {r : CallRegistry} {isBelow : String → String → Bool} {site : CallSite}
    {f : Finding} :
    r.check? isBelow site = some f ↔ ∃ c m target, site.className = some c ∧ site.method = some m ∧
      r.find? isBelow c m = some target ∧
      f = ⟨Issue.unsafeLoad.id, Issue.unsafeLoad.defaultSeverity, .ofSource site.location,
        "Dynamically loading code using `" ++ m ++ "` is risky, please use `" ++ target.alternative
          ++ "` instead when possible", []⟩ := by
  unfold check?
  cases hc : site.className with
  | none => simp
  | some c =>
    cases hm : site.method with
    | none => simp
    | some m =>
      simp only [Option.map_eq_some_iff, Option.some.injEq, exists_and_left, exists_eq_left']
      exact exists_congr fun target => and_congr_right fun _ => eq_comm

theorem ruleId_of_check {r : CallRegistry} {isBelow : String → String → Bool} {site : CallSite}
    {f : Finding} (h : r.check? isBelow site = some f) : f.ruleId = Issue.unsafeLoad.id := by
  obtain ⟨c, m, target, _, _, _, rfl⟩ := check?_eq_some.mp h
  rfl

/-- The registry that always applies knows one method and one thing to call instead. -/
theorem find?_builtin {isBelow : String → String → Bool} {c m : String} {target : UnsafeCall}
    (h : builtin.find? isBelow c m = some target) : m = "load" ∧ target.alternative = "loadLibrary" := by
  have hmem := List.mem_of_find?_eq_some h
  have hfit := List.find?_some h
  rw [Bool.and_eq_true] at hfit
  have hload : ∀ t ∈ builtin.targets, t.methods.names = ["load"] ∧ t.alternative = "loadLibrary" := by
    decide
  obtain ⟨hnames, halt⟩ := hload target hmem
  refine ⟨?_, halt⟩
  have hm := hfit.1
  rw [NameSet.contains, hnames] at hm
  simpa using hm

theorem eq_of_builtin_of_key {isBelow : String → String → Bool} {a b : CallSite} {f g : Finding}
    (hf : builtin.check? isBelow a = some f) (hg : builtin.check? isBelow b = some g)
    (h : f.key = g.key) : f = g := by
  obtain ⟨c, m, target, _, _, ht, rfl⟩ := check?_eq_some.mp hf
  obtain ⟨c', m', target', _, _, ht', rfl⟩ := check?_eq_some.mp hg
  obtain ⟨rfl, ha⟩ := find?_builtin ht
  obtain ⟨rfl, ha'⟩ := find?_builtin ht'
  simp only [Finding.key, Prod.mk.injEq, true_and] at h
  rw [h, ha, ha']

end CallRegistry

/-! ## Files -/

namespace NativeCodePolicy

/-- What is reported of a file. -/
theorem classify?_eq_some {p : NativeCodePolicy} {path : Path} {bytes : List UInt8} {f : Finding} :
    p.classify? path bytes = some f ↔
      p.placement path = .contentRoot ∧ (p.signature? bytes).isSome = true ∧
      f = ⟨Issue.nativeCodeLocation.id, Issue.nativeCodeLocation.defaultSeverity,
        .file (shownPath path),
        if isSharedLibrary (shownPath path) then sharedLibraryMessage else executableMessage, []⟩ := by
  unfold classify?
  by_cases h : p.placement path = .contentRoot ∧ (p.signature? bytes).isSome = true
  · rw [if_pos h]
    simp only [h.1, h.2, true_and, Option.some.injEq]
    exact eq_comm
  · rw [if_neg h]
    simp only [reduceCtorEq, false_iff]
    exact fun hc => h ⟨hc.1, hc.2.1⟩

theorem eq_of_classify_of_key {p : NativeCodePolicy} {path path' : Path} {bytes bytes' : List UInt8}
    {f g : Finding} (hf : p.classify? path bytes = some f) (hg : p.classify? path' bytes' = some g)
    (h : f.key = g.key) : f = g := by
  obtain ⟨_, _, rfl⟩ := classify?_eq_some.mp hf
  obtain ⟨_, _, rfl⟩ := classify?_eq_some.mp hg
  simp only [Finding.key, Prod.mk.injEq, Location.file.injEq, true_and] at h
  rw [h]

theorem checkFile?_eq_some {p : NativeCodePolicy} {t : FileTree} {root path : Path} {f : Finding}
    (h : p.checkFile? t root path = some f) :
    ∃ bytes, p.classify? (path.relativeTo root) bytes = some f := by
  unfold checkFile? at h
  simp only at h
  split at h
  · obtain ⟨bytes, _, hb⟩ := Option.bind_eq_some_iff.mp h
    exact ⟨bytes, hb⟩
  · cases h

end NativeCodePolicy

/-! ## Units -/

/-- What the standard rules report of some classes. -/
def classFindings (classes : List ClassUnit) : List Finding :=
  classes.flatMap fun c => TrustManager.scan c.interfaces c.resolvedMethods

/-- What the standard rules report of some calls. -/
def callFindings (calls : CallRegistry) (types : TypeGraph) (sites : List CallSite) : List Finding :=
  sites.filterMap (calls.check? types.isSubclassOf)

theorem scanUnits_standard (c : ProjectConfig) (u : AnalysisUnits) :
    c.scanUnits .standard u =
      classFindings u.classes ++ callFindings c.callRegistry u.typeGraph u.callSites := by
  have hc : RuleSet.standard.checkClass =
      fun c => TrustManager.scan c.interfaces c.resolvedMethods := funext RuleSet.checkClass_standard
  have hs : RuleSet.standard.checkCall c.callRegistry u.typeGraph =
      fun site => (c.callRegistry.check? u.typeGraph.isSubclassOf site).toList :=
    funext fun site => RuleSet.checkCall_standard _ _ site
  rw [ProjectConfig.scanUnits, hc, hs, classFindings, callFindings, List.filterMap_eq_flatMap_toList]

theorem ruleId_of_mem_classFindings {classes : List ClassUnit} {f : Finding}
    (h : f ∈ classFindings classes) : f.ruleId = Issue.insecureTls.id := by
  obtain ⟨c, _, hf⟩ := List.mem_flatMap.mp h
  exact TrustManager.ruleId_of_mem_scan hf

theorem ruleId_of_mem_callFindings {calls : CallRegistry} {types : TypeGraph} {sites : List CallSite}
    {f : Finding} (h : f ∈ callFindings calls types sites) : f.ruleId = Issue.unsafeLoad.id := by
  obtain ⟨s, _, hf⟩ := List.mem_filterMap.mp h
  exact CallRegistry.ruleId_of_check hf

end AndroidAudit
