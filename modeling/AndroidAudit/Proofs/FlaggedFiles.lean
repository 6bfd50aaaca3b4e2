import AndroidAudit.Proofs.OwnFiles
import AndroidAudit.Proofs.StableOutput

/-!
# Findings name the files they are about

A finding on a file tells where the file is by a text, and by this text the file is opened once more,
for its digest. The text has slashes for backslashes, so for a file with a backslash in its path it
names another file or none (`flagged_backslash`). For every other file it names the file itself, and
the digest in the report is the file's own (`flagged_attested`).
-/

namespace AndroidAudit

/-! ## Digests -/

section

variable {t : FileTree} {root : Path} {f g : Finding}

/-- Nothing but the evidence of a finding changes when a digest is attached. -/
theorem Finding.attachDigest_eq (t : FileTree) (root : Path) (f : Finding) :
    (f.attachDigest t root).1 = { f with evidence := (f.attachDigest t root).1.evidence } := by
  rw [attachDigest]
  split_ifs
  · split
    · split <;> rfl
    · rfl
  · rfl

theorem Finding.key_attachDigest (t : FileTree) (root : Path) (f : Finding) :
    (f.attachDigest t root).1.key = f.key := by
  rw [attachDigest_eq]
  rfl

/-- The evidence that a digest gives, if it can be had. -/
def digestEvidence (d : Except Failure String) : List String :=
  (d.toOption.map ("sha256:" ++ ·)).toList

theorem Finding.evidence_attachDigest {path : String} (hid : f.ruleId = Issue.nativeCodeLocation.id)
    (hloc : f.location = .file path) :
    (f.attachDigest t root).1.evidence =
      f.evidence ++ digestEvidence (t.digest (root.join (.ofString path))) := by
  rw [attachDigest, if_pos hid, hloc]
  cases hd : t.digest (root.join (.ofString path)) with
  | ok d => simp only [hd]; rfl
  | error e => simp only [hd]; exact (List.append_nil _).symm

/-- The digest is all that an attached finding takes from the files. -/
theorem Finding.attachDigest_congr {t' : FileTree} (h : ∀ path, f.location = .file path →
      t.digest (root.join (.ofString path)) = t'.digest (root.join (.ofString path))) :
    f.attachDigest t root = f.attachDigest t' root := by
  rw [attachDigest, attachDigest]
  cases hloc : f.location with
  | file path => simp only [h path hloc]
  | method c m => rfl
  | source file line column => rfl

theorem AuditReport.mem_attest {r : AuditReport} :
    g ∈ (r.attest t root).findings ↔ ∃ f ∈ r.findings, (f.attachDigest t root).1 = g := by
  rw [attest, List.map_map, List.mem_map]
  rfl

theorem FileTree.digest_of_file {path : Path} {bytes : List UInt8}
    (h : t.node .target path = .ok (.file bytes false)) : t.digest path = .ok (Digest.sha256Text bytes) := by
  rw [digest, read, h]

end

/-- Before digests are attached, a finding on native code has no evidence. -/
theorem Project.evidence_of_mem_audit {p : Project} {t : FileTree} {units : Option AnalysisUnits}
    {time : String} {f : Finding} (hf : f ∈ (p.audit .standard t units time).1.findings)
    (hid : f.ruleId = Issue.nativeCodeLocation.id) : f.evidence = [] := by
  obtain ⟨g, hg, -, rfl⟩ := ProjectConfig.mem_keep.mp hf
  rw [ProjectConfig.ruleId_regrade] at hid
  show g.evidence = []
  rcases List.mem_append.mp hg with hg | hg
  · -- the other rules report other issues
    cases units with
    | none => cases hg
    | some u =>
      rw [Option.map_some, Option.getD_some, scanUnits_standard, List.mem_append] at hg
      rcases hg with hg | hg
      · rw [ruleId_of_mem_classFindings hg] at hid
        exact absurd hid (by decide)
      · rw [ruleId_of_mem_callFindings hg] at hid
        exact absurd hid (by decide)
  · rw [(p.scanFiles_standard t).2] at hg
    obtain ⟨path, -, hpath⟩ := List.mem_filterMap.mp hg
    obtain ⟨bytes, hclass⟩ := NativeCodePolicy.checkFile?_eq_some hpath
    obtain ⟨-, -, rfl⟩ := NativeCodePolicy.classify?_eq_some.mp hclass
    rfl

/-- A finding that a command reports on native code has the digest of what its text leads to. -/
theorem Project.evidence_of_mem_attest {p : Project} {t : FileTree} {root : Path}
    {units : Option AnalysisUnits} {time text : String} {d : Except Failure String}
    (hd : t.digest (root.join (.ofString text)) = d) {g : Finding}
    (hg : g ∈ ((p.audit .standard t units time).1.attest t root).findings)
    (hkey : g.key = (Issue.nativeCodeLocation.id, .file text)) : g.evidence = digestEvidence d := by
  obtain ⟨f, hf, rfl⟩ := AuditReport.mem_attest.mp hg
  rw [Finding.key_attachDigest] at hkey
  have hid : f.ruleId = Issue.nativeCodeLocation.id := congrArg Prod.fst hkey
  rw [Finding.evidence_attachDigest hid (congrArg Prod.snd hkey), evidence_of_mem_audit hf hid, hd,
    List.nil_append]

/-! ## Flagged files -/

/-- A file that an audit looks at and reports as native code. -/
structure Flagged (p : Project) (t : FileTree) (dir : Node) (names : List String)
    (bytes : List UInt8) : Prop where
  audited : ∃ closed, Audited p.layout.root dir names (.file bytes closed)
  reported : p.reportAt t names ≠ []

/-- No name has a backslash. -/
def NoBackslash (names : List String) : Prop := ∀ n ∈ names, '\\' ∉ n.toList

instance (names : List String) : Decidable (NoBackslash names) :=
  inferInstanceAs (Decidable (∀ n ∈ names, '\\' ∉ n.toList))

theorem noBackslash_iff {names : List String} :
    NoBackslash names ↔ ∀ n ∈ placeOf names, Path.backslash ∉ n := by
  simp [NoBackslash, placeOf, Name.ofString, Path.backslash]

theorem shown_placeOf {names : List String} : ∀ n ∈ placeOf names, n.shown = n := by
  intro n hn
  obtain ⟨s, -, rfl⟩ := List.mem_map.mp hn
  exact Name.shown_ofString s

/-- The text by which a finding names a file. -/
def shownNames (names : List String) : String :=
  NativeCodePolicy.shownPath ⟨Path.joinNames (placeOf names)⟩

namespace Flagged

variable {p : Project} {t : FileTree} {entries : List (Name × Node)} {closed : Bool}
  {names : List String} {bytes : List UInt8}

theorem ne_nil (h : Flagged p t (.dir entries closed) names bytes) : names ≠ [] := by
  rintro rfl
  obtain ⟨_, haudited⟩ := h.audited
  cases haudited.found

theorem plain (hallowed : (Node.dir entries closed).Allowed)
    (h : Flagged p t (.dir entries closed) names bytes) : ∀ n ∈ placeOf names, n.Plain := by
  obtain ⟨_, haudited⟩ := h.audited
  exact fun n hn => (hallowed.of_get? haudited.found n hn).toPlain

theorem of_misplaced (hroot : t.node .target p.layout.root = .ok (.dir entries closed))
    (hallowed : (Node.dir entries closed).Allowed)
    (ha : Audited p.layout.root (.dir entries closed) names (.file bytes false))
    (hm : Misplaced p.config.nativeCode p.layout.root names (.file bytes false)) :
    Flagged p t (.dir entries closed) names bytes where
  audited := ⟨false, ha⟩
  reported := by
    rw [(Project.reportAt_file hroot hallowed ha.found ha.isFile).1 hm]
    exact List.cons_ne_nil _ _

theorem reportAt_eq (hroot : t.node .target p.layout.root = .ok (.dir entries closed))
    (hallowed : (Node.dir entries closed).Allowed) (h : Flagged p t (.dir entries closed) names bytes) :
    p.reportAt t names = [nativeFinding names] := by
  obtain ⟨_, ha⟩ := h.audited
  obtain ⟨hfound, hnone⟩ := Project.reportAt_file hroot hallowed ha.found ha.isFile
  exact hfound (Classical.not_not.mp fun hm => h.reported (hnone hm))

/-- A flagged file can be read, and is misplaced. -/
theorem misplaced (hroot : t.node .target p.layout.root = .ok (.dir entries closed))
    (hallowed : (Node.dir entries closed).Allowed) (h : Flagged p t (.dir entries closed) names bytes) :
    Audited p.layout.root (.dir entries closed) names (.file bytes false) ∧
      Misplaced p.config.nativeCode p.layout.root names (.file bytes false) := by
  obtain ⟨fileClosed, ha⟩ := h.audited
  have hm := Classical.not_not.mp fun hm =>
    h.reported ((Project.reportAt_file hroot hallowed ha.found ha.isFile).2 hm)
  obtain ⟨_, hbytes, -⟩ := hm.native
  cases fileClosed with
  | true => cases hbytes
  | false => exact ⟨ha, hm⟩

/-- The text of the finding, read as a path from the root, leads to the flagged file. -/
theorem join_shownNames (hallowed : (Node.dir entries closed).Allowed)
    (h : Flagged p t (.dir entries closed) names bytes) (hclean : NoBackslash names) :
    p.layout.root.join (.ofString (shownNames names)) = p.layout.root.descend (placeOf names) := by
  rw [shownNames, Path.ofString_shownPath_joinNames (noBackslash_iff.mp hclean),
    List.map_congr_left shown_placeOf, List.map_id',
    Path.join_joinNames _ (by simpa using h.ne_nil) (h.plain hallowed)]

theorem digest (hroot : t.node .target p.layout.root = .ok (.dir entries closed))
    (hallowed : (Node.dir entries closed).Allowed) (h : Flagged p t (.dir entries closed) names bytes)
    (hclean : NoBackslash names) :
    t.digest (p.layout.root.join (.ofString (shownNames names))) = .ok (Digest.sha256Text bytes) := by
  obtain ⟨ha, hm⟩ := h.misplaced hroot hallowed
  rw [h.join_shownNames hallowed hclean]
  exact FileTree.digest_of_file (FileTree.node_descend hroot ha.found (by simp)
    (hallowed.of_get? ha.found) hm.opened)

/-- Flagged files without a backslash are told apart by the texts that name them. -/
theorem eq_of_shownNames {names' : List String} {bytes' : List UInt8}
    (hallowed : (Node.dir entries closed).Allowed) (h : Flagged p t (.dir entries closed) names bytes)
    (h' : Flagged p t (.dir entries closed) names' bytes') (hclean : NoBackslash names)
    (hclean' : NoBackslash names') (e : shownNames names = shownNames names') : names = names' := by
  have hpath := congrArg (fun s => (p.layout.root.join (.ofString s)).components) e
  simp only [h.join_shownNames hallowed hclean, h'.join_shownNames hallowed hclean',
    Path.components_descend _ (h.plain hallowed), Path.components_descend _ (h'.plain hallowed),
    List.append_cancel_left_eq] at hpath
  have hplace : placeOf names = placeOf names' :=
    List.map_injective_iff.mpr (fun _ _ => Component.name.inj) hpath
  exact List.map_injective_iff.mpr (fun _ _ => Name.ofString_injective) hplace

/-- What is reported of a flagged file is among the findings of the audit. -/
theorem mem_audit (hreport : p.config.reportIssues = true)
    (hroot : t.node .target p.layout.root = .ok (.dir entries closed))
    (hallowed : (Node.dir entries closed).Allowed) (h : Flagged p t (.dir entries closed) names bytes)
    (units : Option AnalysisUnits) (time : String)
    (hon : p.config.isEnabled (nativeFinding names).ruleId = true) :
    p.config.regrade (nativeFinding names) ∈ (p.audit .standard t units time).1.findings := by
  obtain ⟨ha, hm⟩ := h.misplaced hroot hallowed
  have hfound := nativeFinding_mem_scanFiles hreport hroot hallowed ha hm
  exact ProjectConfig.mem_keep.mpr ⟨nativeFinding names, List.mem_append_right _ hfound, hon, rfl⟩

/-- A flagged file is reported by a command. -/
theorem exists_mem_attest (hreport : p.config.reportIssues = true)
    (hroot : t.node .target p.layout.root = .ok (.dir entries closed))
    (hallowed : (Node.dir entries closed).Allowed) (h : Flagged p t (.dir entries closed) names bytes)
    (units : Option AnalysisUnits) (time : String)
    (hon : p.config.isEnabled (nativeFinding names).ruleId = true) (root : Path) :
    ∃ g ∈ ((p.audit .standard t units time).1.attest t root).findings,
      g.key = (nativeFinding names).key := by
  have hfound := h.mem_audit hreport hroot hallowed units time hon
  refine ⟨_, AuditReport.mem_attest.mpr ⟨_, hfound, rfl⟩, ?_⟩
  rw [Finding.key_attachDigest]
  rfl

end Flagged

/-- Of a flagged file one finding is reported. The text that it names the file by leads to the file if
and only if no name on the way has a backslash. Flagged files without a backslash have different
locations, and the one digest in the report of the command is that of the flagged file. -/
theorem flagged_attested (p : Project) (t : FileTree) (dir : Node)
    (hreport : p.config.reportIssues = true) (hroot : t.node .target p.layout.root = .ok dir)
    (hdir : dir.isDir = true) (hallowed : dir.Allowed) :
    (∀ names bytes, Flagged p t dir names bytes → ∃ f text, p.reportAt t names = [f] ∧
      f.location = .file text ∧
      ((p.layout.root.join (.ofString text)).same
        (p.layout.root.join ⟨Path.joinNames (placeOf names)⟩) = true ↔ NoBackslash names)) ∧
    (∀ names bytes names' bytes', Flagged p t dir names bytes → Flagged p t dir names' bytes' →
      NoBackslash names → NoBackslash names' → names ≠ names' →
      ∀ f ∈ p.reportAt t names, ∀ g ∈ p.reportAt t names', f.location ≠ g.location) ∧
    ∀ (h h' : Host) (root : String) (units : Option String) (json : Bool) (output : Option String)
      (report : AuditReport), h.tree = t → Project.ofRoot t (t.resolveRoot root) = .ok p →
      (Command.scan root units json output).exec h = (.ok report, h') →
      ∀ names bytes, Flagged p t dir names bytes → NoBackslash names → ∀ f ∈ p.reportAt t names,
        (p.config.isEnabled f.ruleId = true → ∃ g ∈ report.findings, g.key = f.key) ∧
        ∀ g ∈ report.findings, g.key = f.key →
          g.evidence = ["sha256:" ++ Digest.sha256Text bytes] := by
  obtain ⟨entries, closed, rfl⟩ := Node.eq_dir_of_isDir hdir
  have hone {names : List String} {bytes : List UInt8}
      (hf : Flagged p t (.dir entries closed) names bytes)
      {f : Finding} (hmem : f ∈ p.reportAt t names) : f = nativeFinding names := by
    rw [hf.reportAt_eq hroot hallowed] at hmem
    exact List.mem_singleton.mp hmem
  refine ⟨?_, ?_, ?_⟩
  · intro names bytes hf
    refine ⟨nativeFinding names, shownNames names, hf.reportAt_eq hroot hallowed, rfl, ?_⟩
    rw [noBackslash_iff]
    exact Path.same_join_shownPath (FileTree.spot_of_node hroot).2.1 (by simpa using hf.ne_nil)
      (hf.plain hallowed) shown_placeOf
  · intro names bytes names' bytes' hf hg hclean hclean' hne f hmem g hmem' hloc
    rw [hone hf hmem, hone hg hmem'] at hloc
    exact hne (hf.eq_of_shownNames hallowed hg hclean hclean' (Location.file.inj hloc))
  · rintro h h' root units json output report rfl hp hscan names bytes hf hclean f hmem
    obtain rfl := hone hf hmem
    obtain ⟨p', loaded, hp', -, rfl⟩ := Command.report_of_scan hscan
    obtain rfl : p = p' := Except.ok.inj (hp.symm.trans hp')
    constructor
    · exact fun hon => hf.exists_mem_attest hreport hroot hallowed loaded h.time hon _
    · intro g hg hkey
      exact Project.evidence_of_mem_attest (hf.digest hroot hallowed hclean) hg hkey

/-! ## Files in the current directory -/

theorem allowed_resources {name : String} (h : (Name.ofString name).Allowed) :
    (resourceTree name).Allowed := by
  have hres : (Name.ofString "res").Allowed := by decide
  simp [resourceTree, resources, Node.Allowed, Node.EveryDir, everyDirAmong, h, hres]

theorem linkless_resources (name : String) : (resourceTree name).Linkless := by
  simp [resourceTree, resources, Node.Linkless, Node.EveryDir, everyDirAmong]

theorem node_workHost {entries : List (Name × Node)} (hlinks : (Node.dir entries false).Linkless) :
    (workHost entries).tree.node .target workProject.layout.root = .ok (.dir entries false) :=
  (holds_workHost hlinks).node_absolute (short_work [] (by simp))

theorem flagged_resources {name : String} (h : (Name.ofString name).Allowed)
    (hshort : FileTree.byteCount (workProject.layout.root.descend (placeOf ["res", name])).symbols
      ≤ maxPathBytes) :
    Flagged workProject (workHost (resources name false)).tree (resourceTree name) ["res", name]
      [0x7F, 0x45, 0x4C, 0x46] :=
  .of_misplaced (node_workHost (linkless_resources name)) (allowed_resources h)
    (audited_resourceTree (by decide)) ⟨standard_content name, standard_native [], hshort⟩

/-- A library in the current directory is reported with its digest. -/
theorem flagged_attested_library :
    let h := workHost (resources "libx.so" false)
    workProject.config.reportIssues = true ∧
      h.tree.node .target workProject.layout.root = .ok (resourceTree "libx.so") ∧
      (resourceTree "libx.so").isDir = true ∧ (resourceTree "libx.so").Allowed ∧
      Project.ofRoot h.tree (h.tree.resolveRoot ".") = .ok workProject ∧
      ∃ report h', (Command.scan "." none true none).exec h = (.ok report, h') ∧
        ∃ g ∈ report.findings, g.location = .file "res/libx.so" ∧
          g.evidence = ["sha256:" ++ Digest.sha256Text [0x7F, 0x45, 0x4C, 0x46]] := by
  intro h
  have hlinks := linkless_resources "libx.so"
  have hroot := node_workHost hlinks
  have hallowed : (resourceTree "libx.so").Allowed := allowed_resources (by decide)
  have hp : Project.ofRoot h.tree (h.tree.resolveRoot ".") = .ok workProject := ofRoot_workHost hlinks rfl
  have hflagged : Flagged workProject h.tree _ ["res", "libx.so"] _ :=
    flagged_resources (by decide) (by decide)
  refine ⟨rfl, hroot, rfl, hallowed, hp, ?_⟩
  obtain ⟨-, -, hscan⟩ := flagged_attested workProject h.tree _ rfl hroot rfl hallowed
  have hplace := FileTree.resolveRoot_of_spot (spot_workHost (resources "libx.so" false))
  obtain ⟨h', -, hrun⟩ := (holds_workHost hlinks).exec_scan_of_unkept hplace (hplace ▸ hp)
    (short_work _ (by simp)) rfl true
  have hmem : nativeFinding ["res", "libx.so"] ∈ workProject.reportAt h.tree ["res", "libx.so"] := by
    rw [hflagged.reportAt_eq hroot hallowed]
    exact List.mem_singleton.mpr rfl
  obtain ⟨hexists, hevidence⟩ := hscan h h' "." none true none _ rfl hp hrun _ _ hflagged (by decide) _ hmem
  obtain ⟨g, hg, hkey⟩ := hexists rfl
  exact ⟨_, h', hrun, g, hg, congrArg Prod.snd hkey, hevidence g hg hkey⟩

/-- The native files `res/a\b` and `res/a/b`. -/
def twins : List (Name × Node) :=
  [(Name.ofString "res", .dir
    [ (Name.ofString "a\\b", .file [0x7F, 0x45, 0x4C, 0x46, 1] false),
      (Name.ofString "a", .dir [(Name.ofString "b", .file [0x7F, 0x45, 0x4C, 0x46, 2] false)] false) ]
    false)]

theorem allowed_twins : (Node.dir twins false).Allowed := by
  have hnames : ∀ n ∈ ["res", "a\\b", "a", "b"], (Name.ofString n).Allowed := by decide
  have hne : Name.ofString "a\\b" ≠ Name.ofString "a" := by decide
  simp only [List.forall_mem_cons] at hnames
  simp only [twins, Node.Allowed, Node.EveryDir, everyDirAmong, List.forall_mem_cons]
  simp [hnames, hne]

theorem linkless_twins : (Node.dir twins false).Linkless := by
  simp only [twins, Node.Linkless, Node.EveryDir, everyDirAmong, List.forall_mem_cons]
  simp

theorem flagged_one_twin : Flagged workProject (workHost twins).tree (.dir twins false) ["res", "a\\b"]
    [0x7F, 0x45, 0x4C, 0x46, 1] := by
  refine .of_misplaced (node_workHost linkless_twins) allowed_twins ?_
    ⟨standard_content _, standard_native [1], by decide⟩
  refine ⟨by rfl, rfl, by simp [SkippedDir], by simp, by simp, fun above habove => ?_, by decide⟩
  obtain rfl | rfl : above = [] ∨ above = ["res"] := by simpa [List.prefix_cons_iff] using habove
  · exact ⟨_, rfl⟩
  · exact ⟨_, rfl⟩

theorem flagged_other_twin : Flagged workProject (workHost twins).tree (.dir twins false)
    ["res", "a", "b"] [0x7F, 0x45, 0x4C, 0x46, 2] := by
  refine .of_misplaced (node_workHost linkless_twins) allowed_twins ?_
    ⟨⟨"res", by simp, "res", by decide, rfl⟩, standard_native [2], by decide⟩
  refine ⟨by rfl, rfl, by simp [SkippedDir], by simp, by simp, fun above habove => ?_, by decide⟩
  obtain rfl | ⟨_, rfl, rfl | rfl⟩ : above = [] ∨ ∃ as, above = "res" :: as ∧ (as = [] ∨ as = ["a"]) := by
    simpa [List.prefix_cons_iff] using habove
  · exact ⟨_, rfl⟩
  · exact ⟨_, rfl⟩
  · exact ⟨_, rfl⟩

/-- Two files with one location: the text that names the first leads to the second, and both are
reported with the digest of the second. -/
theorem flagged_backslash :
    let h := workHost twins
    let one := ["res", "a\\b"]
    let two := ["res", "a", "b"]
    Flagged workProject h.tree (.dir twins false) one [0x7F, 0x45, 0x4C, 0x46, 1] ∧
      Flagged workProject h.tree (.dir twins false) two [0x7F, 0x45, 0x4C, 0x46, 2] ∧
      (∃ f g, workProject.reportAt h.tree one = [f] ∧ workProject.reportAt h.tree two = [g] ∧
        f.location = .file "res/a/b" ∧ g.location = .file "res/a/b") ∧
      (workProject.layout.root.join (.ofString "res/a/b")).same
        (workProject.layout.root.join ⟨Path.joinNames (placeOf one)⟩) = false ∧
      ∃ report h', (Command.scan "." none true none).exec h = (.ok report, h') ∧
        (∃ g ∈ report.findings, g.key = (nativeFinding one).key) ∧
        ∀ g ∈ report.findings, g.key = (nativeFinding one).key →
          g.evidence = ["sha256:" ++ Digest.sha256Text [0x7F, 0x45, 0x4C, 0x46, 2]] ∧
          g.evidence ≠ ["sha256:" ++ Digest.sha256Text [0x7F, 0x45, 0x4C, 0x46, 1]] := by
  intro h one two
  have hroot := node_workHost linkless_twins
  have hone : (nativeFinding ["res", "a\\b"]).location = .file "res/a/b" := by decide
  have htwo : (nativeFinding ["res", "a", "b"]).location = .file "res/a/b" := by decide
  have hplace := FileTree.resolveRoot_of_spot (spot_workHost twins)
  have hp := ofRoot_workHost linkless_twins rfl
  rw [hplace] at hp
  obtain ⟨h', -, hrun⟩ := (holds_workHost linkless_twins).exec_scan_of_unkept hplace hp
    (short_work _ (by simp)) rfl true
  refine ⟨flagged_one_twin, flagged_other_twin, ⟨nativeFinding one, nativeFinding two,
    flagged_one_twin.reportAt_eq hroot allowed_twins,
    flagged_other_twin.reportAt_eq hroot allowed_twins, hone, htwo⟩, by decide, _, h', hrun, ?_, ?_⟩
  · exact flagged_one_twin.exists_mem_attest rfl hroot allowed_twins none _ rfl _
  · intro g hg hkey
    have hdigest := flagged_other_twin.digest hroot allowed_twins (by decide)
    have hkeys : (nativeFinding ["res", "a\\b"]).key = (nativeFinding ["res", "a", "b"]).key := by decide
    rw [Project.evidence_of_mem_attest hdigest hg (hkey.trans hkeys)]
    exact ⟨rfl, by decide +kernel⟩

end AndroidAudit
