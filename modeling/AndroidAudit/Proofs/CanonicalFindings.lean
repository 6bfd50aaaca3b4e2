import AndroidAudit.Proofs.ConfigGating
import AndroidAudit.Proofs.TextOrder

/-!
# The one list of findings that a project keeps

The order of findings goes by texts, whose order is that of their bytes. `Location.Precedes` and
`Finding.Precedes` say so without comparing, one rule after another, and `StablySorted` says what it is to
be the sorted form of a list. There is one such form (`stablySorted_iff`), so `keep_canonical` can name the
list that a project keeps: the findings that it has not disabled, regraded and sorted. That list is kept
as it is by the same project.
-/

namespace AndroidAudit

/-! ## The order in words -/

/-- Whether a location comes before another: methods come before positions in sources and these before
files, and within a kind the first field that differs decides. -/
inductive Location.Precedes : Location → Location → Prop
  | methodSource (c m f : String) (l k : UInt32) : Precedes (.method c m) (.source f l k)
  | methodFile (c m p : String) : Precedes (.method c m) (.file p)
  | sourceFile (f : String) (l k : UInt32) (p : String) : Precedes (.source f l k) (.file p)
  | className {c c' : String} (h : Text.Precedes c c') (m m' : String) :
    Precedes (.method c m) (.method c' m')
  | methodName (c : String) {m m' : String} (h : Text.Precedes m m') :
    Precedes (.method c m) (.method c m')
  | sourcePath {f f' : String} (h : Text.Precedes f f') (l l' k k' : UInt32) :
    Precedes (.source f l k) (.source f' l' k')
  | line (f : String) {l l' : UInt32} (h : l < l') (k k' : UInt32) :
    Precedes (.source f l k) (.source f l' k')
  | column (f : String) (l : UInt32) {k k' : UInt32} (h : k < k') :
    Precedes (.source f l k) (.source f l k')
  | filePath {p p' : String} (h : Text.Precedes p p') : Precedes (.file p) (.file p')

/-- Whether a finding comes before another: by its issue, and within an issue by its location. -/
inductive Finding.Precedes : Finding → Finding → Prop
  | issue {a b : Finding} (h : Text.Precedes a.ruleId b.ruleId) : Precedes a b
  | location {a b : Finding} (hissue : a.ruleId = b.ruleId) (h : a.location.Precedes b.location) :
    Precedes a b

theorem Location.order_eq_lt_iff {a b : Location} : a.order b = .lt ↔ a.Precedes b := by
  have hnum {l l' : UInt32} : compare l l' = .lt ↔ l < l' := compareOfLessAndEq_eq_lt
  constructor
  · intro h
    cases a <;> cases b <;>
      simp only [order, Ordering.then_eq_lt, Ordering.then_eq_eq, Text.compare_eq_lt_iff, hnum,
        Std.compare_eq_iff_eq, reduceCtorEq] at h
    case method.method =>
      rcases h with h | ⟨rfl, h⟩
      · exact .className h _ _
      · exact .methodName _ h
    case method.source => exact .methodSource ..
    case method.file => exact .methodFile ..
    case source.source =>
      rcases h with (h | ⟨rfl, h⟩) | ⟨⟨rfl, rfl⟩, h⟩
      · exact .sourcePath h _ _ _ _
      · exact .line _ h _ _
      · exact .column _ _ h
    case source.file => exact .sourceFile ..
    case file.file => exact .filePath h
  · intro h
    cases h with
    | methodSource | methodFile | sourceFile => rfl
    | className h | methodName _ h | sourcePath h | filePath h =>
      simp [order, Text.compare_eq_lt_iff.mpr h]
    | line _ h | column _ _ h => simp [order, hnum.mpr h]

namespace Finding

theorem order_eq_lt_iff {a b : Finding} : a.order b = .lt ↔ a.Precedes b := by
  rw [order, Ordering.then_eq_lt, Text.compare_eq_lt_iff, Location.order_eq_lt_iff,
    Std.compare_eq_iff_eq]
  constructor
  · rintro (h | ⟨hissue, h⟩)
    · exact .issue h
    · exact .location hissue h
  · rintro (h | ⟨hissue, h⟩)
    · exact .inl h
    · exact .inr ⟨hissue, h⟩

theorem before_iff {a b : Finding} : a.before b = true ↔ ¬ b.Precedes a := by
  have hswap : a.order b = .gt ↔ b.order a = .lt := Std.OrientedCmp.gt_iff_lt
  rw [before, bne_iff_ne, ne_eq, hswap, order_eq_lt_iff]

end Finding

/-! ## Sorted lists -/

/-- One list is the sorted form of another: it has the same findings, none stands after one that it
comes before, and those with the same issue and location are in the order they had. -/
structure StablySorted (fs sorted : List Finding) : Prop where
  perm : sorted.Perm fs
  ordered : sorted.Pairwise fun a b => ¬ b.Precedes a
  ties : ∀ k, sorted.filter (·.key = k) = fs.filter (·.key = k)

theorem stablySorted_sortFindings (fs : List Finding) : StablySorted fs (sortFindings fs) where
  perm := sortFindings_perm fs
  ordered := (sortFindings_pairwise fs).imp Finding.before_iff.mp
  ties := filter_key_sortFindings fs

/-- A list has one sorted form. -/
theorem stablySorted_iff {fs sorted : List Finding} :
    StablySorted fs sorted ↔ sorted = sortFindings fs := by
  constructor
  · intro h
    have hordered := h.ordered.imp Finding.before_iff.mpr
    refine eq_of_filter_key hordered (sortFindings_pairwise fs) fun k => ?_
    rw [h.ties, filter_key_sortFindings]
  · rintro rfl
    exact stablySorted_sortFindings fs

/-! ## What is kept -/

namespace ProjectConfig

theorem isEnabled_eq (c : ProjectConfig) (id : String) :
    c.isEnabled id = decide (id ∉ c.disabledIssues.names) := by
  simp [isEnabled, NameSet.contains]

theorem regrade_eq (c : ProjectConfig) (f : Finding) : c.regrade f =
    { f with severity := ((c.severityOverrides.get? f.ruleId).or
      ((Issue.find? f.ruleId).map (·.defaultSeverity))).getD f.severity } := by
  rw [regrade, severityFor]
  cases c.severityOverrides.get? f.ruleId <;> rfl

end ProjectConfig

/-- What a project keeps of findings is the sorted form of those that it has not disabled, each with
nothing but its severity changed: to the one that the project sets for the issue, or else the usual one
of an issue of the catalogue, or else its own. The findings left out are counted and no other count
changes. Keeping what is kept changes nothing and leaves nothing out. -/
theorem keep_canonical (c : ProjectConfig) (fs : List Finding) (s : AuditStats) :
    let wanted := (fs.filter fun f => f.ruleId ∉ c.disabledIssues.names).map fun f =>
      { f with severity := ((c.severityOverrides.get? f.ruleId).or
        ((Issue.find? f.ruleId).map (·.defaultSeverity))).getD f.severity }
    (∀ kept, kept = c.keep fs ↔ StablySorted wanted kept) ∧
    s.addSuppressed (c.suppressed fs) =
      { s with suppressed := s.suppressed + .ofNat (fs.length - (c.keep fs).length) } ∧
    c.keep (c.keep fs) = c.keep fs ∧
    s.addSuppressed (c.suppressed (c.keep fs)) = s := by
  intro wanted
  have hwanted : (fs.filter fun f => c.isEnabled f.ruleId).map c.regrade = wanted := by
    simp only [ProjectConfig.isEnabled_eq]
    exact List.map_congr_left fun f _ => c.regrade_eq f
  have hcount : c.suppressed fs = fs.length - (c.keep fs).length := by
    have hlength := c.length_keep_add_suppressed fs
    omega
  refine ⟨fun kept => ?_, ?_, c.keep_keep fs, ?_⟩
  · rw [stablySorted_iff, ProjectConfig.keep, hwanted]
  · rw [hcount, AuditStats.addSuppressed]
  · rw [c.suppressed_keep, AuditStats.addSuppressed]
    simp

end AndroidAudit
