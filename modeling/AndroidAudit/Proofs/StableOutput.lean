import Mathlib.Data.List.Perm.Basic
import Mathlib.Data.List.Forall2
import AndroidAudit.Proofs.KeptFindings
import AndroidAudit.Proofs.Reordering

/-!
# What an audit reports does not depend on the order of what it is given

A list of findings is sorted by rule and place alone, and findings that agree in both keep the order
they came in. Each rule makes the rest of a finding from its rule and place, so findings that come in
another order are kept alike (`filter_key_classFindings`, `filter_key_callFindings`,
`filter_key_fileFindings`). The one exception are calls that a project has registered itself, whose
words depend on the call and not on its place.

`audit_reordered` is the theorem on whole audits: of the tree, of the classes with their methods and
interfaces and, without calls of the project's own, of the call sites.
-/

namespace AndroidAudit

/-! ## Units in another order -/

/-- A class with its interfaces and methods in another order. -/
structure ClassUnit.Reordered (c c' : ClassUnit) : Prop where
  name : c.name = c'.name
  interfaces : c.interfaces.Perm c'.interfaces
  methods : c.methods.Perm c'.methods

/-- Units that differ in order alone. Calls stay in order if the project has registered some itself. -/
structure AnalysisUnits.Reordered (c : ProjectConfig) (u v : AnalysisUnits) : Prop where
  classes : ∃ mid, List.Forall₂ ClassUnit.Reordered u.classes mid ∧ mid.Perm v.classes
  types : u.types = v.types
  callSites : u.callSites.Perm v.callSites
  in_order : c.unsafeCalls ≠ [] → u.callSites = v.callSites

theorem TrustManager.scan_perm {interfaces interfaces' : List String} {methods methods' : List MethodBody}
    (hi : interfaces.Perm interfaces') (hm : methods.Perm methods') :
    (scan interfaces methods).Perm (scan interfaces' methods') := by
  have hany : (interfaces.any fun i => normalizeTypeName i == interfaceName) =
      interfaces'.any fun i => normalizeTypeName i == interfaceName := hi.any_eq
  rw [scan, scan, hany]
  split
  · exact hm.filterMap _
  · exact .refl _

theorem ClassUnit.Reordered.resolvedMethods_perm {c c' : ClassUnit} (h : c.Reordered c') :
    c.resolvedMethods.Perm c'.resolvedMethods := by
  rw [resolvedMethods, resolvedMethods, h.name]
  exact h.methods.map _

theorem classFindings_perm {classes mid classes' : List ClassUnit}
    (h : List.Forall₂ ClassUnit.Reordered classes mid) (hp : mid.Perm classes') :
    (classFindings classes).Perm (classFindings classes') := by
  refine List.Perm.trans ?_ (hp.flatMap_right _)
  clear hp
  induction h with
  | nil => exact .refl _
  | cons hc _ ih =>
    rw [classFindings, List.flatMap_cons, List.flatMap_cons]
    exact (TrustManager.scan_perm hc.interfaces hc.resolvedMethods_perm).append ih

/-! ## For each key -/

theorem filter_key_classFindings {classes classes' : List ClassUnit}
    (h : (classFindings classes).Perm (classFindings classes')) (k : String × Location) :
    (classFindings classes).filter (·.key = k) = (classFindings classes').filter (·.key = k) := by
  refine filter_key_of_perm h (fun f hf g hg hkey => ?_) k
  obtain ⟨c, _, hf⟩ := List.mem_flatMap.mp hf
  obtain ⟨d, _, hg⟩ := List.mem_flatMap.mp hg
  obtain ⟨m, _, hm⟩ := TrustManager.mem_scan hf
  obtain ⟨n, _, hn⟩ := TrustManager.mem_scan hg
  exact TrustManager.eq_of_check_of_key hm hn hkey

theorem filter_key_callFindings {types : TypeGraph} {sites sites' : List CallSite}
    (h : sites.Perm sites') (k : String × Location) :
    (callFindings .builtin types sites).filter (·.key = k) =
      (callFindings .builtin types sites').filter (·.key = k) := by
  refine filter_key_of_perm (h.filterMap _) (fun f hf g hg hkey => ?_) k
  obtain ⟨a, _, ha⟩ := List.mem_filterMap.mp hf
  obtain ⟨b, _, hb⟩ := List.mem_filterMap.mp hg
  exact CallRegistry.eq_of_builtin_of_key ha hb hkey

/-- What the standard rules report of the files at some paths. -/
def fileFindings (policy : NativeCodePolicy) (t : FileTree) (root : Path) (paths : List Path) :
    List Finding :=
  paths.filterMap (policy.checkFile? t root)

theorem filter_key_fileFindings {policy : NativeCodePolicy} {t : FileTree} {root : Path}
    {paths paths' : List Path} (h : paths.Perm paths') (k : String × Location) :
    (fileFindings policy t root paths).filter (·.key = k) =
      (fileFindings policy t root paths').filter (·.key = k) := by
  refine filter_key_of_perm (h.filterMap _) (fun f hf g hg hkey => ?_) k
  obtain ⟨a, _, ha⟩ := List.mem_filterMap.mp hf
  obtain ⟨b, _, hb⟩ := List.mem_filterMap.mp hg
  obtain ⟨bytes, ha⟩ := NativeCodePolicy.checkFile?_eq_some ha
  obtain ⟨bytes', hb⟩ := NativeCodePolicy.checkFile?_eq_some hb
  exact NativeCodePolicy.eq_of_classify_of_key ha hb hkey

/-! ## Whole audits -/

/-- Findings that are the same, and in the same order for each key. -/
structure SameFindings (fs gs : List Finding) : Prop where
  perm : fs.Perm gs
  filter_key : ∀ k, fs.filter (·.key = k) = gs.filter (·.key = k)

theorem SameFindings.append {fs gs fs' gs' : List Finding} (h : SameFindings fs gs)
    (h' : SameFindings fs' gs') : SameFindings (fs ++ fs') (gs ++ gs') where
  perm := h.perm.append h'.perm
  filter_key k := by rw [List.filter_append, List.filter_append, h.filter_key k, h'.filter_key k]

theorem SameFindings.refl (fs : List Finding) : SameFindings fs fs := ⟨.refl _, fun _ => rfl⟩

theorem AnalysisUnits.Reordered.scanUnits {c : ProjectConfig} {u v : AnalysisUnits}
    (h : u.Reordered c v) : SameFindings (c.scanUnits .standard u) (c.scanUnits .standard v) := by
  rw [scanUnits_standard, scanUnits_standard]
  obtain ⟨mid, hmid, hperm⟩ := h.classes
  have hclasses := classFindings_perm hmid hperm
  have htypes : u.typeGraph = v.typeGraph := congrArg TypeGraph.ofRecords h.types
  refine .append ⟨hclasses, filter_key_classFindings hclasses⟩ ?_
  rw [htypes]
  by_cases hcalls : c.unsafeCalls = []
  · have hregistry : c.callRegistry = .builtin := by rw [ProjectConfig.callRegistry, hcalls]; rfl
    rw [hregistry]
    exact ⟨h.callSites.filterMap _, filter_key_callFindings h.callSites⟩
  · rw [h.in_order hcalls]
    exact .refl _

/-- What the standard rules report of the files of a project, by the paths of these. -/
theorem Project.scanFiles_standard (p : Project) (t : FileTree) :
    let paths := if p.config.reportIssues then
      (walkedFiles (t.walk p.layout.keeps p.layout.root)).map (·.path) else []
    (p.scanFiles .standard t).count = paths.length ∧
      (p.scanFiles .standard t).findings = fileFindings p.config.nativeCode t p.layout.root paths := by
  have hcheck : RuleSet.standard.checkFile p.config.nativeCode t p.layout.root =
      fun path => (p.config.nativeCode.checkFile? t p.layout.root path).toList :=
    funext fun path => RuleSet.checkFile_standard _ _ _ path
  rw [scanFiles, hcheck, RuleSet.hasFileRules_standard]
  cases p.config.reportIssues with
  | false => exact ⟨rfl, rfl⟩
  | true =>
    refine ⟨(List.length_map _).symm, ?_⟩
    show List.flatMap _ (walkedFiles _) = List.filterMap _ (List.map _ (walkedFiles _))
    rw [List.filterMap_map, List.filterMap_eq_flatMap_toList]
    rfl

/-- The files of a project in trees that differ in the order of entries. -/
theorem Node.Reordered.scanFiles {t t' : FileTree} (h : t.root.Reordered t'.root)
    (hd : t.root.Distinct) (hcwd : t.cwd = t'.cwd) (p : Project) :
    (p.scanFiles .standard t).count = (p.scanFiles .standard t').count ∧
      SameFindings (p.scanFiles .standard t).findings (p.scanFiles .standard t').findings := by
  have halike : t.Alike t' := ⟨h.alike hd, hcwd⟩
  have hwalk := walkedFiles_walk_perm p.layout halike hd (h.distinct hd)
  have hcheck : p.config.nativeCode.checkFile? t p.layout.root =
      p.config.nativeCode.checkFile? t' p.layout.root :=
    funext fun path => halike.checkFile? _ _ path
  obtain ⟨hcount, hfindings⟩ := p.scanFiles_standard t
  obtain ⟨hcount', hfindings'⟩ := p.scanFiles_standard t'
  rw [hcount, hcount', hfindings, hfindings', fileFindings, hcheck]
  cases p.config.reportIssues with
  | false => exact ⟨rfl, .refl _⟩
  | true => exact ⟨hwalk.length_eq, hwalk.filterMap _, filter_key_fileFindings hwalk⟩

/-- An audit of the same tree and units in another order reports the same findings, in the same
order, and the same numbers. -/
theorem audit_reordered (p : Project) (t t' : FileTree) (units units' : Option AnalysisUnits)
    (time time' : String) (hd : t.root.Distinct) (htree : t.root.Reordered t'.root)
    (hcwd : t.cwd = t'.cwd) (hunits : Option.Rel (AnalysisUnits.Reordered p.config) units units') :
    (p.audit .standard t units time).1.findings = (p.audit .standard t' units' time').1.findings ∧
      (p.audit .standard t units time).1.stats = (p.audit .standard t' units' time').1.stats := by
  obtain ⟨hcount, hfiles⟩ := htree.scanFiles hd hcwd p
  have hinUnits : SameFindings ((units.map (p.config.scanUnits .standard)).getD [])
      ((units'.map (p.config.scanUnits .standard)).getD []) := by
    cases hunits with
    | none => exact .refl _
    | some h => exact h.scanUnits
  have hstats : (units.map AuditStats.zero.addUnits).getD .zero =
      (units'.map AuditStats.zero.addUnits).getD .zero := by
    cases hunits with
    | none => rfl
    | some h =>
      obtain ⟨mid, hmid, hperm⟩ := h.classes
      simp only [Option.map_some, Option.getD_some, AuditStats.addUnits, h.callSites.length_eq,
        hmid.length_eq.trans hperm.length_eq]
  have hfound := hinUnits.append hfiles
  constructor
  · exact p.config.keep_congr hfound.filter_key
  · simp only [Project.audit, hstats, hcount, p.config.suppressed_perm hfound.perm]

/-- Two libraries listed the other way round, two overloads and two calls exchanged. -/
theorem audit_reordered_demo :
    let p : Project := ⟨⟨.ofString "."⟩, .ofName "demo"⟩
    let elf : Node := .file [0x7F, 0x45, 0x4C, 0x46] false
    let tree (es : List (Name × Node)) : FileTree :=
      ⟨.dir [(Name.ofString "w", .dir [(Name.ofString "res", .dir es false)] false)] false,
        [Name.ofString "w"]⟩
    let a := (Name.ofString "a.so", elf)
    let b := (Name.ofString "b.so", elf)
    let noop (steps : List Instruction) : MethodBody := ⟨"checkServerTrusted", "", steps⟩
    let trusting (methods : List MethodBody) : ClassUnit :=
      ⟨"a/B", ["javax/net/ssl/X509TrustManager"], methods⟩
    let short := noop [.returnVoid]
    let long := noop [.returnVoid, .returnVoid]
    let site : CallSite := ⟨some "java.lang.System", some "load", ⟨"C.kt", 3, 5⟩⟩
    let other : CallSite := ⟨none, some "load", ⟨"C.kt", 3, 5⟩⟩
    let u : AnalysisUnits := ⟨[trusting [short, long]], [], [site, other]⟩
    let v : AnalysisUnits := ⟨[trusting [long, short]], [], [other, site]⟩
    (tree [a, b]).root.Distinct ∧ (tree [a, b]).root.Reordered (tree [b, a]).root ∧
      u.Reordered p.config v ∧
      (p.audit .standard (tree [a, b]) (some u) "now").1.findings =
        (p.audit .standard (tree [b, a]) (some v) "then").1.findings ∧
      (p.audit .standard (tree [a, b]) (some u) "now").1.stats =
        (p.audit .standard (tree [b, a]) (some v) "then").1.stats := by
  intro p elf tree a b noop trusting short long site other u v
  have hnames : Name.ofString "a.so" ≠ Name.ofString "b.so" := by decide
  have hd : (tree [a, b]).root.Distinct := by
    simp [tree, a, b, elf, Node.Distinct, Node.EveryDir, everyDirAmong, hnames]
  have htree : (tree [a, b]).root.Reordered (tree [b, a]).root :=
    .entry [] _ [] (.entry [] _ [] (.perm (.swap b a [])))
  have hunits : u.Reordered p.config v :=
    { classes := ⟨[trusting [long, short]],
        .cons ⟨rfl, .refl _, .swap long short []⟩ .nil, .refl _⟩
      types := rfl
      callSites := .swap other site []
      in_order := fun h => absurd rfl h }
  exact ⟨hd, htree, hunits, audit_reordered p _ _ _ _ "now" "then" hd htree rfl (.some hunits)⟩

end AndroidAudit
