import Mathlib.Data.List.Basic
import AndroidAudit.Proofs.KeptFindings

/-!
# Settings that gate what is reported

A project may disable an issue or set its severity. Neither has a part in what the rules find; both act
on what has been found:

* `keep_disable`: disabling an issue takes its findings out of what is kept;
* `keep_override`: setting the severity of an issue changes that of its findings and nothing else;
* `suppressed_disable`: the findings taken out are counted.

`audit_gated` says the same of whole audits, by any rules. Filter and change come before the sort in an
audit and after it here, which is the same since the sort goes by a key that both leave alone.
-/

namespace AndroidAudit

namespace ProjectConfig

/-- The settings with one more issue disabled. -/
def disable (c : ProjectConfig) (id : String) : ProjectConfig :=
  { c with disabledIssues := c.disabledIssues.insert id }

/-- The settings with the severity of one issue set. -/
def override (c : ProjectConfig) (id : String) (s : Severity) : ProjectConfig :=
  { c with severityOverrides := c.severityOverrides.insert id s }

end ProjectConfig

/-- A finding that is as severe as given if it is of the given issue. -/
def Finding.regradeTo (id : String) (s : Severity) (f : Finding) : Finding :=
  if f.ruleId = id then { f with severity := s } else f

theorem Finding.key_regradeTo (id : String) (s : Severity) (f : Finding) :
    (f.regradeTo id s).key = f.key := by
  unfold regradeTo
  split <;> rfl

theorem Finding.before_congr {a b a' b' : Finding} (ha : a.key = a'.key) (hb : b.key = b'.key) :
    a.before b = a'.before b' := by
  simp only [key, Prod.mk.injEq] at ha hb
  unfold before order
  rw [ha.1, ha.2, hb.1, hb.2]

namespace ProjectConfig

variable (c : ProjectConfig) (fs : List Finding) (id : String)

/-! ## Disabled issues -/

theorem isEnabled_disable (x : String) :
    (c.disable id).isEnabled x = (decide (x ≠ id) && c.isEnabled x) := by
  unfold isEnabled disable
  simp only [NameSet.contains_insert, Bool.not_or]
  by_cases h : x = id <;> simp [h]

theorem keep_disable : (c.disable id).keep fs = (c.keep fs).filter (·.ruleId ≠ id) := by
  refine eq_of_filter_key (keep_pairwise _ fs) ((c.keep_pairwise fs).filter _) fun k => ?_
  have hregrade : (c.disable id).regrade = c.regrade := rfl
  -- all findings of the key are of its issue, so the second filter takes all of them or none
  have hissue : ∀ f ∈ (c.keep fs).filter (·.key = k), f.ruleId = k.1 := by
    intro f hf
    have hkey := (List.mem_filter.mp hf).2
    rw [decide_eq_true_eq] at hkey
    exact congrArg Prod.fst hkey
  rw [List.filter_comm, filter_key_keep, hregrade, isEnabled_disable]
  by_cases hid : k.1 = id
  · have hnone : ((c.keep fs).filter (·.key = k)).filter (·.ruleId ≠ id) = [] :=
      List.filter_eq_nil_iff.mpr fun f hf => by simp [hissue f hf, hid]
    rw [hnone]
    simp [hid]
  · have hall : ((c.keep fs).filter (·.key = k)).filter (·.ruleId ≠ id) = (c.keep fs).filter (·.key = k) :=
      List.filter_eq_self.mpr fun f hf => by simp [hissue f hf, hid]
    rw [hall, filter_key_keep]
    simp [hid]

/-- Every finding is kept or left out. -/
theorem length_keep_add_suppressed : (c.keep fs).length + c.suppressed fs = fs.length := by
  have hkept : (c.keep fs).length = (fs.filter fun f => c.isEnabled f.ruleId).length := by
    rw [keep, (sortFindings_perm _).length_eq, List.length_map]
  have hsplit := fs.length_eq_length_filter_add fun f => c.isEnabled f.ruleId
  rw [hkept, suppressed]
  omega

theorem suppressed_disable :
    (c.disable id).suppressed fs = c.suppressed fs + ((c.keep fs).filter (·.ruleId = id)).length := by
  have hnow := (c.disable id).length_keep_add_suppressed fs
  have hbefore := c.length_keep_add_suppressed fs
  have hsplit := (c.keep fs).length_eq_length_filter_add fun f => decide (f.ruleId = id)
  rw [keep_disable] at hnow
  simp only [ne_eq, decide_not] at hnow
  omega

/-! ## Severities -/

theorem regrade_override (s : Severity) (f : Finding) :
    (c.override id s).regrade f = (c.regrade f).regradeTo id s := by
  unfold Finding.regradeTo
  simp only [regrade, severityFor, override, NameMap.get?_insert]
  by_cases h : f.ruleId = id <;> simp [h]

theorem keep_override (s : Severity) :
    (c.override id s).keep fs = (c.keep fs).map (Finding.regradeTo id s) := by
  have hsorted : ((c.keep fs).map (Finding.regradeTo id s)).Pairwise fun a b => a.before b = true := by
    rw [List.pairwise_map]
    refine (c.keep_pairwise fs).imp fun {a b} hab => ?_
    rwa [Finding.before_congr (a.key_regradeTo id s) (b.key_regradeTo id s)]
  refine eq_of_filter_key (keep_pairwise _ fs) hsorted fun k => ?_
  have hmap : ((c.keep fs).map (Finding.regradeTo id s)).filter (·.key = k) =
      ((c.keep fs).filter (·.key = k)).map (Finding.regradeTo id s) := by
    rw [List.filter_map]
    refine congrArg (List.map _) (List.filter_congr fun f _ => ?_)
    simp only [Function.comp_apply, Finding.key_regradeTo]
  have henabled : (c.override id s).isEnabled k.1 = c.isEnabled k.1 := rfl
  rw [hmap, filter_key_keep, filter_key_keep, henabled]
  split
  · rw [List.map_map]
    exact List.map_congr_left fun f _ => c.regrade_override id s f
  · rfl

end ProjectConfig

/-! ## Whole audits -/

/-- A project with other settings. -/
def Project.configured (p : Project) (c : ProjectConfig) : Project := { p with config := c }

/-- Disabling an issue takes its findings out of a report, leaves the others as and where they are, and
adds the number of those taken out to the findings left out. Setting the severity of an issue changes
the severity of its findings in the report, and nothing else. -/
theorem audit_gated (p : Project) (rules : RuleSet) (t : FileTree) (units : Option AnalysisUnits)
    (time : String) (id : String) (s : Severity) :
    let before := (p.audit rules t units time).1
    let disabled := ((p.configured (p.config.disable id)).audit rules t units time).1
    let overridden := ((p.configured (p.config.override id s)).audit rules t units time).1
    (disabled.findings = before.findings.filter (·.ruleId ≠ id) ∧
      disabled.stats = { before.stats with
        suppressed := before.stats.suppressed +
          UInt64.ofNat (before.findings.filter (·.ruleId = id)).length }) ∧
    (overridden.findings =
        before.findings.map (fun f => if f.ruleId = id then { f with severity := s } else f) ∧
      overridden.stats = before.stats) := by
  intro before disabled overridden
  -- the rules see neither of the two settings, so all three runs find the same
  let found := (units.map (p.config.scanUnits rules)).getD [] ++ (p.scanFiles rules t).findings
  have hbefore : before.findings = p.config.keep found := rfl
  have hdisabled : disabled.findings = (p.config.disable id).keep found := rfl
  have hoverridden : overridden.findings = (p.config.override id s).keep found := rfl
  refine ⟨⟨?_, ?_⟩, ?_, rfl⟩
  · rw [hdisabled, hbefore, ProjectConfig.keep_disable]
  · have hcount : disabled.stats.suppressed = before.stats.suppressed +
        UInt64.ofNat (before.findings.filter (·.ruleId = id)).length := by
      show _ + UInt64.ofNat ((p.config.disable id).suppressed found) =
        _ + UInt64.ofNat (p.config.suppressed found) + _
      rw [ProjectConfig.suppressed_disable, UInt64.ofNat_add, ← UInt64.add_assoc, hbefore]
      rfl
    rw [← hcount]
    rfl
  · rw [hoverridden, hbefore, ProjectConfig.keep_override]
    rfl

end AndroidAudit
