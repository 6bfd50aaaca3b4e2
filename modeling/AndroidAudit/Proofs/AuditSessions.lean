import AndroidAudit.Proofs.UndisturbedAudits

/-!
# Sessions of commands on one project

In a session commands are run on one root, one after another, each on the files that the one before
has left. No command of a session but the audits makes a report, and by `OwnChange` no command changes
anything that an audit looks at, so all audits of a session that succeed report the same
(`reports_undisturbed`).

There is an exception. The digest of a flagged file is read by a text in which slashes stand for
backslashes, and such a text may lead to the settings of the project: then the evidence of an audit
depends on whether the project has been set up (`reports_backslash`).
-/

namespace AndroidAudit

/-- A command of a session. -/
inductive SessionStep where
  | initProject (name : Option String)
  | projectInfo (json : Bool)
  | listIssues (json : Bool)
  | scan (json : Bool)

/-- What a step does, and the report that it makes, if it is an audit. -/
def SessionStep.command (root : String) : SessionStep → Command (Option AuditReport)
  | .initProject name => (fun _ => none) <$> Command.initProject root name
  | .projectInfo json => (fun _ => none) <$> Command.projectInfo root json
  | .listIssues json => (fun _ => none) <$> Command.listIssues json
  | .scan json => some <$> Command.scan root none json none

/-- The reports of the audits of a session that succeed. Each step is run at its time. -/
def sessionReports (root : String) : Host → List (String × SessionStep) → List AuditReport
  | _, [] => []
  | h, (time, step) :: steps =>
    ((step.command root).exec { h with time := time }).1.toOption.join.toList ++
      sessionReports root ((step.command root).exec { h with time := time }).2 steps

section

variable {root : String} {h h' : Host} {time : String} {steps : List (String × SessionStep)}

/-- A report of a session is made by an audit, on files of which all holds that every step keeps. -/
theorem exists_scan_of_mem_reports {I : FileTree → Prop}
    (hkeep : ∀ step : SessionStep, Command.Keeps I (step.command root)) (hI : I h.tree)
    {report : AuditReport} (hr : report ∈ sessionReports root h steps) :
    ∃ host host' json, I host.tree ∧
      (Command.scan root none json none).exec host = (.ok report, host') := by
  induction steps generalizing h with
  | nil => cases hr
  | cons s steps ih =>
    obtain ⟨time, step⟩ := s
    rw [sessionReports, List.mem_append] at hr
    rcases hr with hr | hr
    · cases hrun : (step.command root).exec { h with time := time } with
      | mk made host' =>
        rw [hrun] at hr
        obtain rfl : made = .ok (some report) := by
          cases made with
          | error e => cases hr
          | ok made =>
            rw [Except.toOption, Option.join_some, Option.mem_toList] at hr
            rw [hr]
        -- of all steps, only an audit makes a report
        cases step with
        | initProject name => obtain ⟨_, -, hnone⟩ := Command.of_exec_map hrun; cases hnone
        | projectInfo json => obtain ⟨_, -, hnone⟩ := Command.of_exec_map hrun; cases hnone
        | listIssues json => obtain ⟨_, -, hnone⟩ := Command.of_exec_map hrun; cases hnone
        | scan json =>
          obtain ⟨_, hscan, hsome⟩ := Command.of_exec_map hrun
          cases hsome
          exact ⟨{ h with time := time }, host', json, hI, hscan⟩
    · exact ih (hkeep step { h with time := time } hI) hr

theorem sessionReports_of_scan {json : Bool} {report : AuditReport}
    (hs : (Command.scan root none json none).exec { h with time := time } = (.ok report, h')) :
    sessionReports root h ((time, .scan json) :: steps) = report :: sessionReports root h' steps := by
  rw [sessionReports, SessionStep.command, Command.exec_map_of_ok some hs]
  rfl

theorem sessionReports_of_initProject {name : Option String}
    (hs : (Command.initProject root name).exec { h with time := time } = (.ok (), h')) :
    sessionReports root h ((time, .initProject name) :: steps) = sessionReports root h' steps := by
  rw [sessionReports, SessionStep.command, Command.exec_map_of_ok (fun _ => none) hs]
  rfl

end

/-! ## Undisturbed reports -/

/-- A finding without what is put forward for it. -/
def Finding.withoutEvidence (f : Finding) : Finding := { f with evidence := [] }

theorem Finding.withoutEvidence_attachDigest (t : FileTree) (root : Path) (f : Finding) :
    (f.attachDigest t root).1.withoutEvidence = f.withoutEvidence := by
  rw [attachDigest_eq]
  rfl

theorem AuditReport.withoutEvidence_attest (r : AuditReport) (t : FileTree) (root : Path) :
    (r.attest t root).findings.map (·.withoutEvidence) = r.findings.map (·.withoutEvidence) := by
  rw [attest, List.map_map, List.map_map]
  exact List.map_congr_left fun f _ => f.withoutEvidence_attachDigest t root

/-- Which files findings are about does not depend on their evidence. -/
theorem PlainlyNamed.congr {dir : Node} {fs gs : List Finding} (h : PlainlyNamed dir fs)
    (heq : fs.map (·.withoutEvidence) = gs.map (·.withoutEvidence)) : PlainlyNamed dir gs := by
  intro names bytes hget g hg hloc
  have hmem : g.withoutEvidence ∈ fs.map (·.withoutEvidence) := heq ▸ List.mem_map_of_mem hg
  obtain ⟨f, hf, hfg⟩ := List.mem_map.mp hmem
  have hsame : f.withoutEvidence.location = g.withoutEvidence.location := congrArg Finding.location hfg
  exact h names bytes hget f hf (hsame.trans hloc)

namespace OwnChange

variable {t₀ : FileTree} {place : List Name} {entries₀ : List (Name × Node)} {closed : Bool}
  {root : String}

/-- No step of a session changes anything but the own files. -/
theorem keeps_command
    (hroot : t₀.spot .target (.ofString root) = .ok (.taken place (.dir entries₀ closed)))
    (step : SessionStep) :
    Command.Keeps (fun t => ∃ entries, OwnChange t₀ place entries₀ t entries closed)
      (step.command root) := by
  cases step with
  | initProject name => exact (keeps_initProject hroot name).map _
  | projectInfo json => exact (Command.Keeps.projectInfo root json).map _
  | listIssues json => exact (Command.Keeps.listIssues json).map _
  | scan json => exact (keeps_scan hroot json).map _

/-- What an audit reports, told by the files as they were before all own changes. -/
theorem report_eq (h₀ : t₀.Holds place entries₀ closed) (hallowed : (Node.dir entries₀ closed).Allowed)
    (hroot : t₀.spot .target (.ofString root) = .ok (.taken place (.dir entries₀ closed)))
    {entries : List (Name × Node)} {host host' : Host} {json : Bool} {report : AuditReport}
    (h : OwnChange t₀ place entries₀ host.tree entries closed)
    (hs : (Command.scan root none json none).exec host = (.ok report, host')) :
    report.stats = (plainAudit place t₀ "" "").stats ∧
      report.findings.map (·.withoutEvidence) =
        (plainAudit place t₀ "" "").findings.map (·.withoutEvidence) ∧
      (PlainlyNamed (.dir entries₀ closed) (plainAudit place t₀ "" "").findings →
        report.findings = ((plainAudit place t₀ "" "").attest t₀ (FileTree.absolute place)).findings) := by
  obtain ⟨hshort, name, rfl⟩ := h.report_of_scan hroot hs
  obtain ⟨hstats, hfindings⟩ := h.audit_eq h₀ hallowed hshort name host.time
  refine ⟨hstats, ?_, fun hclean => ?_⟩
  · rw [AuditReport.withoutEvidence_attest, hfindings]
  · rw [AuditReport.attest, AuditReport.attest, hfindings]
    refine congrArg (List.map Prod.fst) (List.map_congr_left fun f hf => ?_)
    exact h.attachDigest_eq h₀ hallowed hshort hclean hf

end OwnChange

/-- In a session in the current directory an audit before the project is set up and one after it both
succeed, and the second sees the settings. -/
theorem reports_around_setup {entries : List (Name × Node)}
    (hlinks : (Node.dir entries false).Linkless) (hmeta : entries.lookup metaName = none)
    (hreports : entries.lookup reportsName = none) (name : String) (json : Bool) :
    ∃ t entries', OwnChange (workHost entries).tree workPlace entries t entries' false ∧
      (Node.dir entries' false).get? [metaName, configName] = some (.file (plainConfig name) false) ∧
      sessionReports "." (workHost entries)
        [("first", .scan json), ("then", .initProject (some name)), ("last", .scan json)] =
        [ (OwnChange.plainAudit workPlace (workHost entries).tree "w" "first").attest
            (workHost entries).tree (FileTree.absolute workPlace),
          (OwnChange.plainAudit workPlace t name "last").attest t (FileTree.absolute workPlace) ] := by
  have hroot := spot_workHost entries
  have hholds := holds_workHost hlinks
  have hplace := FileTree.resolveRoot_of_spot hroot
  have hp := ofRoot_workHost hlinks hmeta
  rw [hplace] at hp
  -- the first audit leaves the files as they are
  obtain ⟨h₁, htree, hfirst⟩ := @FileTree.Holds.exec_scan_of_unkept workPlace entries false "."
    { workHost entries with time := "first" } workProject hholds hplace hp
    (short_work _ (by simp)) hreports json
  -- the project is set up
  have hholds₁ : h₁.tree.Holds workPlace entries false := by rwa [htree]
  have hplace₁ : h₁.tree.resolveRoot "." = FileTree.absolute workPlace := by rwa [htree]
  obtain ⟨h₂, entries', hsetup, hholds₂, hkept, hconfig⟩ :=
    @FileTree.Holds.exec_initProject_of_fresh workPlace entries false "." { h₁ with time := "then" } hholds₁
      hplace₁ (short_work _ (by simp)) (short_work _ (by simp)) hmeta hreports (some name)
  -- and the second audit finds it so
  have hfresh : (Node.dir entries false).get? [metaName, configName] = none := by
    rw [Node.get?_cons, hmeta]
    rfl
  obtain ⟨es, hchange⟩ : ∃ es, OwnChange (workHost entries).tree workPlace entries h₂.tree es false := by
    have hkeeps := OwnChange.keeps_initProject hroot (some name) { h₁ with time := "then" }
      ⟨entries, by rw [htree]; exact .refl hholds hfresh⟩
    rwa [hsetup] at hkeeps
  obtain rfl : es = entries' := by
    have hget := hchange.holds.get?
    rw [hholds₂.get?, Option.some.injEq, Node.dir.injEq] at hget
    exact hget.1.symm
  obtain ⟨h₃, hlast⟩ := @FileTree.Holds.exec_scan_of_kept workPlace es false "."
    { h₂ with time := "last" } ⟨⟨FileTree.absolute workPlace⟩, .ofName name⟩ hholds₂
    (hchange.resolveRoot hroot) (hholds₂.ofRoot_of_plainConfig (short_work _ (by simp)) hconfig)
    (short_work _ (by simp)) [] false hkept nofun json
  refine ⟨h₂.tree, es, hchange, hconfig, ?_⟩
  rw [sessionReports_of_scan hfirst, sessionReports_of_initProject hsetup, sessionReports_of_scan hlast]
  rfl

/-- All audits of a session on a directory without links and settings report the same counts and the
same findings, with the same evidence unless a reported file has a backslash in its path. -/
theorem reports_undisturbed (h : Host) (root : String) (place : List Name)
    (entries : List (Name × Node)) (closed : Bool) (steps : List (String × SessionStep))
    (hroot : h.tree.spot .target (.ofString root) = .ok (.taken place (.dir entries closed)))
    (hallowed : h.tree.root.Allowed) (hlinks : (Node.dir entries closed).Linkless)
    (hfresh : (Node.dir entries closed).get? [metaName, configName] = none) :
    ∀ a ∈ sessionReports root h steps, ∀ b ∈ sessionReports root h steps,
      a.stats = b.stats ∧
      a.findings.map (·.withoutEvidence) = b.findings.map (·.withoutEvidence) ∧
      (PlainlyNamed (.dir entries closed) a.findings → a.findings = b.findings) := by
  have hget := FileTree.get?_of_spot hroot
  have hholds : h.tree.Holds place entries closed := ⟨hget, hallowed.of_get? hget, hlinks⟩
  have hdir : (Node.dir entries closed).Allowed := hallowed.get? hget
  -- each report is that of the files as they are before the session
  intro a ha b hb
  obtain ⟨_, _, _, ⟨_, hchange⟩, hscan⟩ := exists_scan_of_mem_reports
    (OwnChange.keeps_command hroot) ⟨entries, .refl hholds hfresh⟩ ha
  obtain ⟨_, _, _, ⟨_, hchange'⟩, hscan'⟩ := exists_scan_of_mem_reports
    (OwnChange.keeps_command hroot) ⟨entries, .refl hholds hfresh⟩ hb
  obtain ⟨hstats, hfindings, hevidence⟩ := hchange.report_eq hholds hdir hroot hscan
  obtain ⟨hstats', hfindings', hevidence'⟩ := hchange'.report_eq hholds hdir hroot hscan'
  refine ⟨hstats.trans hstats'.symm, hfindings.trans hfindings'.symm, fun hclean => ?_⟩
  have hplain := hclean.congr hfindings
  rw [hevidence hplain, hevidence' hplain]

/-- A library is reported alike before and after its project is set up. -/
theorem reports_undisturbed_library :
    let h := workHost (resources "libx.so" false)
    let steps := [("first", .scan true), ("then", .initProject (some "demo")), ("last", .scan true)]
    h.tree.spot .target (.ofString ".") = .ok (.taken workPlace (resourceTree "libx.so")) ∧
      h.tree.root.Allowed ∧ (resourceTree "libx.so").Linkless ∧
      (resourceTree "libx.so").get? [metaName, configName] = none ∧
      ∃ a b, sessionReports "." h steps = [a, b] ∧ a.project = "w" ∧ b.project = "demo" ∧
        a.findings ≠ [] ∧ a.stats = b.stats ∧ a.findings = b.findings := by
  intro h steps
  have hlinks := linkless_resources "libx.so"
  have hdir : (resourceTree "libx.so").Allowed := allowed_resources (by decide)
  have hallowed : h.tree.root.Allowed := allowed_workHost hdir
  have hroot := spot_workHost (resources "libx.so" false)
  refine ⟨hroot, hallowed, hlinks, rfl, ?_⟩
  obtain ⟨t, entries', -, -, hreports⟩ := reports_around_setup hlinks rfl rfl "demo" true
  have hflagged := @flagged_resources "libx.so" (by decide) (by decide)
  obtain ⟨f, hf, -⟩ := hflagged.exists_mem_attest rfl (node_workHost hlinks) hdir none "first" rfl
    (FileTree.absolute workPlace)
  obtain ⟨hstats, -, hfindings⟩ := reports_undisturbed h "." workPlace _ _ steps hroot hallowed hlinks rfl
    _ (hreports ▸ List.mem_cons_self) _ (hreports ▸ List.mem_cons_of_mem _ List.mem_cons_self)
  have hnames : (resourceTree "libx.so").EveryDir fun entries =>
      ∀ e ∈ entries, Path.backslash ∉ e.1 := by
    simp only [resourceTree, resources, Node.EveryDir, everyDirAmong, List.forall_mem_singleton, and_true]
    decide
  refine ⟨_, _, hreports, rfl, rfl, List.ne_nil_of_mem hf, hstats, hfindings ?_⟩
  exact fun names bytes hget _ _ _ => Node.EveryDir.of_get? (fun _ hp => hp) hnames hget

/-! ## Settings that are taken for a flagged file -/

/-- A name that is shown as a path to the settings. -/
def strayName : String := "..\\.droidlint\\project.json"

/-- The text that names the file `res/..\.droidlint\project.json` leads to the settings. -/
theorem spot_stray {t : FileTree} {entries es : List (Name × Node)} {closed closed' : Bool}
    (h : t.Holds workPlace entries closed)
    (hres : entries.lookup (Name.ofString "res") = some (.dir es closed')) :
    t.spot .target ((FileTree.absolute workPlace).join (.ofString (shownNames ["res", strayName]))) =
      (Node.dir entries closed).reach workPlace [metaName, configName] := by
  have hpath : (FileTree.absolute workPlace).join (.ofString (shownNames ["res", strayName])) =
      .ofString "/w/res/../.droidlint/project.json" := by decide +kernel
  have hroute : FileTree.route (.ofString "/w/res/../.droidlint/project.json") =
      workPlace ++ Name.ofString "res" :: [Path.dot, Path.dot] :: [metaName, configName] := by decide +kernel
  rw [hpath, FileTree.spot, hroute, if_neg (by decide), if_neg (by decide), if_neg (by decide),
    if_pos (by decide)]
  exact h.walkTo_up (by decide) hres (by decide) maxLinks

/-- An audit before the project is set up has no digest of the file, and one after it has that of the
settings. -/
theorem reports_backslash :
    let h := workHost (resources strayName false)
    let steps := [("first", .scan true), ("then", .initProject (some "w")), ("last", .scan true)]
    h.tree.spot .target (.ofString ".") = .ok (.taken workPlace (resourceTree strayName)) ∧
      h.tree.root.Allowed ∧ (resourceTree strayName).Linkless ∧
      (resourceTree strayName).get? [metaName, configName] = none ∧
      ∃ a b, sessionReports "." h steps = [a, b] ∧ a.findings ≠ b.findings := by
  intro h steps
  have hlinks := linkless_resources strayName
  have hdir : (resourceTree strayName).Allowed := allowed_resources (by decide)
  refine ⟨spot_workHost _, allowed_workHost hdir, hlinks, rfl, ?_⟩
  obtain ⟨t, entries', hchange, hconfig, hreports⟩ := reports_around_setup hlinks rfl rfl "w" true
  refine ⟨_, _, hreports, fun heq => ?_⟩
  have hbefore : ∃ e, h.tree.digest ((FileTree.absolute workPlace).join
      (.ofString (shownNames ["res", strayName]))) = .error e := by
    rw [FileTree.digest, FileTree.read, FileTree.node, spot_stray (holds_workHost hlinks) rfl]
    exact ⟨_, rfl⟩
  have hafter : t.digest ((FileTree.absolute workPlace).join
      (.ofString (shownNames ["res", strayName]))) = .ok (Digest.sha256Text (plainConfig "w")) := by
    refine FileTree.digest_of_file ?_
    rw [FileTree.node, spot_stray hchange.holds (hchange.lookup_eq rfl),
      Node.reach_of_get? allowed_config hconfig]
  obtain ⟨e, hbefore⟩ := hbefore
  have hflagged : Flagged workProject h.tree _ ["res", strayName] _ :=
    flagged_resources (by decide) (by decide)
  obtain ⟨g, hg, hkey⟩ := hflagged.exists_mem_attest rfl (node_workHost hlinks) hdir none "first" rfl
    (FileTree.absolute workPlace)
  have hnone := Project.evidence_of_mem_attest hbefore hg hkey
  have hsome := Project.evidence_of_mem_attest hafter (heq ▸ hg) hkey
  rw [hnone] at hsome
  cases hsome

end AndroidAudit
