import AndroidAudit.Proofs.KeptFindings
import AndroidAudit.Proofs.StandardRules

/-!
# Auditing units in parts

Units may be audited in parts that know the same types, and what is kept of the parts may be put
together (`auditUnits_together`). Classes are reported before calls, so the findings of the whole come
in another order than those of one part after the other. The two orders differ only in findings of
different issues (`filter_key_scanUnits_together`), which the sort tells apart.
-/

namespace AndroidAudit

/-- The units of two parts that know the same types. -/
def AnalysisUnits.together (u v : AnalysisUnits) : AnalysisUnits where
  classes := u.classes ++ v.classes
  types := u.types
  callSites := u.callSites ++ v.callSites

/-- The counts of two parts. -/
def AuditStats.add (a b : AuditStats) : AuditStats where
  classes := a.classes + b.classes
  callSites := a.callSites + b.callSites
  files := a.files + b.files
  suppressed := a.suppressed + b.suppressed

/-- The findings that are kept of some units, and the counts from nothing on. -/
def ProjectConfig.auditUnits (c : ProjectConfig) (u : AnalysisUnits) : List Finding × AuditStats :=
  let found := c.scanUnits .standard u
  (c.keep found, (AuditStats.zero.addUnits u).addSuppressed (c.suppressed found))

/-! ## Findings of different issues -/

/-- Findings of one issue may be put before or behind those of others. -/
theorem filter_key_append_comm {fs gs : List Finding} (h : ∀ f ∈ fs, ∀ g ∈ gs, f.ruleId ≠ g.ruleId)
    (k : String × Location) : (fs ++ gs).filter (·.key = k) = (gs ++ fs).filter (·.key = k) := by
  rw [List.filter_append, List.filter_append]
  by_cases hk : ∃ f ∈ fs, f.key = k
  · obtain ⟨f, hf, hkf⟩ := hk
    have hg : gs.filter (·.key = k) = [] := by
      refine List.filter_eq_nil_iff.mpr fun g hg hkg => h f hf g hg ?_
      rw [decide_eq_true_eq] at hkg
      exact congrArg Prod.fst (hkf.trans hkg.symm)
    rw [hg, List.append_nil, List.nil_append]
  · have hf : fs.filter (·.key = k) = [] := by
      refine List.filter_eq_nil_iff.mpr fun f hf hkf => hk ⟨f, hf, ?_⟩
      rwa [decide_eq_true_eq] at hkf
    rw [hf, List.append_nil, List.nil_append]

/-! ## The whole and its parts -/

/-- For each key the whole has the findings of the one part and then those of the other. -/
theorem filter_key_scanUnits_together (c : ProjectConfig) {u v : AnalysisUnits}
    (h : u.types = v.types) (k : String × Location) :
    (c.scanUnits .standard (u.together v)).filter (·.key = k) =
      (c.scanUnits .standard u ++ c.scanUnits .standard v).filter (·.key = k) := by
  have htypes : v.typeGraph = u.typeGraph := by rw [AnalysisUnits.typeGraph, ← h]; rfl
  have hdiff : ∀ f ∈ classFindings v.classes,
      ∀ g ∈ callFindings c.callRegistry u.typeGraph u.callSites, f.ruleId ≠ g.ruleId := by
    intro f hf g hg
    rw [ruleId_of_mem_classFindings hf, ruleId_of_mem_callFindings hg]
    decide
  have hwhole : c.scanUnits .standard (u.together v) =
      classFindings u.classes ++ (classFindings v.classes ++
        callFindings c.callRegistry u.typeGraph u.callSites) ++
        callFindings c.callRegistry u.typeGraph v.callSites := by
    rw [scanUnits_standard]
    simp only [AnalysisUnits.together, classFindings, callFindings, List.flatMap_append,
      List.filterMap_append, List.append_assoc]
    rfl
  rw [hwhole, scanUnits_standard, scanUnits_standard, htypes]
  -- the classes of the second part change places with the calls of the first
  rw [List.filter_append, List.filter_append, filter_key_append_comm hdiff]
  simp only [List.filter_append, List.append_assoc]

theorem suppressed_scanUnits_together (c : ProjectConfig) {u v : AnalysisUnits}
    (h : u.types = v.types) :
    c.suppressed (c.scanUnits .standard (u.together v)) =
      c.suppressed (c.scanUnits .standard u) + c.suppressed (c.scanUnits .standard v) := by
  have htypes : v.typeGraph = u.typeGraph := by rw [AnalysisUnits.typeGraph, ← h]; rfl
  have hgraph : (u.together v).typeGraph = u.typeGraph := rfl
  rw [scanUnits_standard, scanUnits_standard, scanUnits_standard, htypes, hgraph]
  simp only [AnalysisUnits.together, classFindings, callFindings, List.flatMap_append,
    List.filterMap_append, ProjectConfig.suppressed_append]
  omega

theorem addUnits_together (u v : AnalysisUnits) (m n : Nat) :
    (AuditStats.zero.addUnits (u.together v)).addSuppressed (m + n) =
      ((AuditStats.zero.addUnits u).addSuppressed m).add
        ((AuditStats.zero.addUnits v).addSuppressed n) := by
  simp [AuditStats.addUnits, AuditStats.addSuppressed, AuditStats.add, AuditStats.zero,
    AnalysisUnits.together, UInt64.ofNat_add]

/-- Units may be audited in parts: what is kept of the whole is what is kept of that which is kept of
the parts, of which nothing further is left out, and the counts of the parts add up. -/
theorem auditUnits_together (p : Project) (u v : AnalysisUnits) (h : u.types = v.types) :
    (p.config.auditUnits (u.together v)).1 =
        p.config.keep ((p.config.auditUnits u).1 ++ (p.config.auditUnits v).1) ∧
      p.config.suppressed ((p.config.auditUnits u).1 ++ (p.config.auditUnits v).1) = 0 ∧
      (p.config.auditUnits (u.together v)).2 =
        (p.config.auditUnits u).2.add (p.config.auditUnits v).2 := by
  refine ⟨?_, ProjectConfig.suppressed_append_keep _ _ _, ?_⟩
  · simp only [ProjectConfig.auditUnits]
    rw [ProjectConfig.keep_append_keep]
    exact ProjectConfig.keep_congr _ (filter_key_scanUnits_together p.config h)
  · simp only [ProjectConfig.auditUnits]
    rw [suppressed_scanUnits_together p.config h, addUnits_together]

/-- Two parts that both report at the same places, with one issue disabled. -/
theorem auditUnits_together_demo :
    let p : Project := ⟨⟨.ofString "."⟩,
      { ProjectConfig.ofName "demo" with disabledIssues := .ofList ["InsecureTLS"] }⟩
    let trusting : ClassUnit := ⟨"a/B", ["javax/net/ssl/X509TrustManager"],
      [⟨"checkServerTrusted", "", [.returnVoid]⟩]⟩
    let call : CallSite := ⟨some "a.C", some "load", ⟨"C.kt", 3, 5⟩⟩
    let u : AnalysisUnits := ⟨[trusting], [⟨"a/C", some "java/lang/System"⟩], [call, call]⟩
    let v : AnalysisUnits := ⟨[trusting, trusting], [⟨"a/C", some "java/lang/System"⟩], [call]⟩
    u.types = v.types ∧
      (p.config.auditUnits (u.together v)).1 =
        p.config.keep ((p.config.auditUnits u).1 ++ (p.config.auditUnits v).1) ∧
      p.config.suppressed ((p.config.auditUnits u).1 ++ (p.config.auditUnits v).1) = 0 ∧
      (p.config.auditUnits (u.together v)).2 =
        (p.config.auditUnits u).2.add (p.config.auditUnits v).2 := by
  intro p trusting call u v
  exact ⟨rfl, auditUnits_together p u v rfl⟩

end AndroidAudit
