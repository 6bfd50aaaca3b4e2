import AndroidAudit.Audit.Scan
import AndroidAudit.Proofs.FindingOrder

/-!
# What a project keeps of its findings

`ProjectConfig.keep` leaves out what is disabled, regrades the rest and sorts it. For each key it holds
the findings of that key, regraded, in the order they came, or none if the issue is disabled
(`filter_key_keep`). What else there is to say of it follows from this and from a sorted list being
known by its keys:

* `keep_congr`: findings that are alike for each enabled key are kept alike;
* `keep_append_keep`: what is kept of two lists may be put together and kept once more;
* `suppressed_append_keep`: and this leaves out nothing further.
-/

namespace AndroidAudit.ProjectConfig

@[simp] theorem ruleId_regrade (c : ProjectConfig) (f : Finding) : (c.regrade f).ruleId = f.ruleId := rfl

/-- A severity that the project has settled stays. -/
theorem regrade_regrade (c : ProjectConfig) (f : Finding) : c.regrade (c.regrade f) = c.regrade f := by
  simp only [regrade, severityFor]
  cases c.severityOverrides.get? f.ruleId with
  | some s => rfl
  | none => cases Issue.find? f.ruleId <;> rfl

/-! ## For each key -/

/-- What is kept of the findings of one key. -/
theorem filter_key_keep (c : ProjectConfig) (fs : List Finding) (k : String × Location) :
    (c.keep fs).filter (·.key = k) =
      if c.isEnabled k.1 then (fs.filter (·.key = k)).map c.regrade else [] := by
  have hk : ∀ f : Finding, f.key = k → f.ruleId = k.1 := fun f h => congrArg Prod.fst h
  rw [keep, filter_key_sortFindings, List.filter_map, List.filter_filter]
  split
  · rename_i hon
    refine congrArg (List.map c.regrade) (List.filter_congr fun f _ => ?_)
    show (decide (f.key = k) && c.isEnabled f.ruleId) = decide (f.key = k)
    by_cases e : f.key = k
    · simp [hk f e, hon]
    · simp [e]
  · rename_i hoff
    rw [List.map_eq_nil_iff, List.filter_eq_nil_iff]
    intro f _
    show ¬ (decide (f.key = k) && c.isEnabled f.ruleId) = true
    by_cases e : f.key = k
    · simp [hk f e, hoff]
    · simp [e]

theorem keep_pairwise (c : ProjectConfig) (fs : List Finding) :
    (c.keep fs).Pairwise fun a b => a.before b = true :=
  sortFindings_pairwise _

/-- Findings that are alike for each key that is reported are kept alike. -/
theorem keep_congr (c : ProjectConfig) {fs gs : List Finding}
    (h : ∀ k, fs.filter (·.key = k) = gs.filter (·.key = k)) : c.keep fs = c.keep gs :=
  eq_of_filter_key (c.keep_pairwise fs) (c.keep_pairwise gs) fun k => by
    rw [filter_key_keep, filter_key_keep, h k]

/-- Keeping what is kept of two lists is keeping the two lists. -/
theorem keep_append_keep (c : ProjectConfig) (fs gs : List Finding) :
    c.keep (c.keep fs ++ c.keep gs) = c.keep (fs ++ gs) := by
  refine eq_of_filter_key (c.keep_pairwise _) (c.keep_pairwise _) fun k => ?_
  rw [filter_key_keep, filter_key_keep, List.filter_append, List.filter_append, filter_key_keep,
    filter_key_keep]
  have hone : c.regrade ∘ c.regrade = c.regrade := funext c.regrade_regrade
  split
  · simp only [List.map_append, List.map_map, hone]
  · rfl

/-- Keeping what is kept changes nothing. -/
theorem keep_keep (c : ProjectConfig) (fs : List Finding) : c.keep (c.keep fs) = c.keep fs := by
  have hnil : c.keep [] = [] := by simp [keep, sortFindings]
  have h := c.keep_append_keep fs []
  rwa [hnil, List.append_nil, List.append_nil] at h

/-! ## What is left out -/

theorem mem_keep {c : ProjectConfig} {fs : List Finding} {f : Finding} :
    f ∈ c.keep fs ↔ ∃ g ∈ fs, c.isEnabled g.ruleId = true ∧ c.regrade g = f := by
  rw [keep, (sortFindings_perm _).mem_iff, List.mem_map]
  simp only [List.mem_filter, and_assoc]

theorem suppressed_append (c : ProjectConfig) (fs gs : List Finding) :
    c.suppressed (fs ++ gs) = c.suppressed fs + c.suppressed gs := by
  simp only [suppressed, List.filter_append, List.length_append]

theorem suppressed_perm (c : ProjectConfig) {fs gs : List Finding} (h : fs.Perm gs) :
    c.suppressed fs = c.suppressed gs :=
  (h.filter _).length_eq

/-- Nothing that is kept is left out later. -/
theorem suppressed_keep (c : ProjectConfig) (fs : List Finding) : c.suppressed (c.keep fs) = 0 := by
  rw [suppressed, List.length_eq_zero_iff, List.filter_eq_nil_iff]
  intro f hf
  obtain ⟨g, _, hon, rfl⟩ := mem_keep.mp hf
  rw [ruleId_regrade, hon]
  decide

theorem suppressed_append_keep (c : ProjectConfig) (fs gs : List Finding) :
    c.suppressed (c.keep fs ++ c.keep gs) = 0 := by
  rw [suppressed_append, suppressed_keep, suppressed_keep]

end AndroidAudit.ProjectConfig
