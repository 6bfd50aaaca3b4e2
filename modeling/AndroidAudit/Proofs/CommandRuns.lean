import AndroidAudit.Command.Project
import AndroidAudit.Command.Scan

/-!
# Runs of commands

A command is a program of steps that may fail. `exec` runs it, and the lemmas `exec_…` say what each
step comes to, so that a run is followed step by step. `Keeps` is what holds of the files after every
run, failed or not, if it held before.

An audit runs in four stages (`scan_eq`): the project is loaded, the units are loaded, the audit is
made, and the report is delivered. Each of the first two may fail and then leaves all as it was
(`exec_scan_of_unloadable`, `exec_scan_of_badUnits`), the audit itself cannot fail
(`exec_scan_of_loaded`), and delivery fails only if the report cannot be written.
-/

namespace AndroidAudit

/-- A report with the digests of the files that its findings are about. -/
def AuditReport.attest (r : AuditReport) (t : FileTree) (root : Path) : AuditReport :=
  { r with findings := (r.findings.map (·.attachDigest t root)).map (·.1) }

/-- What is said about digests that cannot be had. -/
def AuditReport.missingDigests (r : AuditReport) (t : FileTree) (root : Path) : List LogEntry :=
  (r.findings.map (·.attachDigest t root)).flatMap (·.2)

/-- The units in a file, if one is named. -/
def AnalysisUnits.loadGiven (t : FileTree) : Option String → Except UnitsError (Option AnalysisUnits)
  | none => .ok none
  | some file => (AnalysisUnits.load t (.ofString file)).map some

theorem Project.of_ofRoot {t : FileTree} {path : Path} {p : Project} (hp : ofRoot t path = .ok p) :
    p.layout = ⟨path⟩ ∧ ProjectLayout.loadConfigOrDefault ⟨path⟩ t = .ok p.config := by
  rw [ofRoot] at hp
  cases hc : ProjectLayout.loadConfigOrDefault ⟨path⟩ t with
  | error e => rw [hc] at hp; cases hp
  | ok config => rw [hc] at hp; cases hp; exact ⟨rfl, rfl⟩

namespace Command

variable {α β ε : Type}

/-! ## Steps -/

/-- What a command comes to on a host, and the host after it. -/
def exec (c : Command α) (h : Host) : Except Failure α × Host := c.run h

section

variable {c : Command α} {f : α → Command β} {h h' : Host} {a : α} {e : Failure}

theorem exec_bind_of_ok (hc : c.exec h = (.ok a, h')) : (c >>= f).exec h = (f a).exec h' := by
  have hrun : c.run h = (.ok a, h') := hc
  show (ExceptT.bindCont f (c.run h).1).run (c.run h).2 = _
  rw [hrun]
  rfl

theorem exec_bind_of_error (hc : c.exec h = (.error e, h')) : (c >>= f).exec h = (.error e, h') := by
  have hrun : c.run h = (.error e, h') := hc
  show (ExceptT.bindCont f (c.run h).1).run (c.run h).2 = _
  rw [hrun]
  rfl

theorem exec_map_of_ok (g : α → β) (hc : c.exec h = (.ok a, h')) :
    (g <$> c).exec h = (.ok (g a), h') := by
  rw [map_eq_pure_bind, exec_bind_of_ok hc]
  rfl

theorem exec_map_of_error (g : α → β) (hc : c.exec h = (.error e, h')) :
    (g <$> c).exec h = (.error e, h') := by
  rw [map_eq_pure_bind, exec_bind_of_error hc]

/-- A run that succeeds does so in each of its steps. -/
theorem of_exec_bind {b : β} (hrun : (c >>= f).exec h = (.ok b, h')) :
    ∃ a h₁, c.exec h = (.ok a, h₁) ∧ (f a).exec h₁ = (.ok b, h') := by
  cases hr : c.exec h with
  | mk r h₁ =>
    cases r with
    | error e =>
      rw [exec_bind_of_error hr] at hrun
      cases hrun
    | ok a =>
      rw [exec_bind_of_ok hr] at hrun
      exact ⟨a, h₁, rfl, hrun⟩

/-- A run that fails does so in its first step or after it. -/
theorem of_exec_bind_error (hrun : (c >>= f).exec h = (.error e, h')) :
    c.exec h = (.error e, h') ∨ ∃ a h₁, c.exec h = (.ok a, h₁) ∧ (f a).exec h₁ = (.error e, h') := by
  cases hr : c.exec h with
  | mk r h₁ =>
    cases r with
    | error e₁ =>
      rw [exec_bind_of_error hr] at hrun
      cases hrun
      exact .inl rfl
    | ok a =>
      rw [exec_bind_of_ok hr] at hrun
      exact .inr ⟨a, h₁, rfl, hrun⟩

theorem of_exec_map {g : α → β} {b : β} (hrun : (g <$> c).exec h = (.ok b, h')) :
    ∃ a, c.exec h = (.ok a, h') ∧ g a = b := by
  rw [map_eq_pure_bind] at hrun
  obtain ⟨a, h₁, hc, hpure⟩ := of_exec_bind hrun
  cases hpure
  exact ⟨a, hc, rfl⟩

end

theorem exec_pure (a : α) (h : Host) : (pure a : Command α).exec h = (.ok a, h) := rfl

theorem exec_files (h : Host) : files.exec h = (.ok h.tree, h) := rfl

theorem exec_get (h : Host) : (get : Command Host).exec h = (.ok h, h) := rfl

theorem exec_log (e : LogEntry) (h : Host) :
    (log e).exec h = (.ok (), { h with log := h.log ++ [e] }) := rfl

theorem exec_printLine (s : String) (h : Host) :
    (printLine s).exec h = (.ok (), { h with output := h.output ++ s ++ "\n" }) := rfl

theorem exec_orFail_ok (a : α) (explain : ε → Failure) (h : Host) :
    (orFail (.ok a) explain).exec h = (.ok a, h) := rfl

theorem exec_orFail_error (e : ε) (explain : ε → Failure) (h : Host) :
    (orFail (.error e) explain : Command α).exec h = (.error (explain e), h) := rfl

theorem exec_forM_log (entries : List LogEntry) (h : Host) :
    (entries.forM log).exec h = (.ok (), { h with log := h.log ++ entries }) := by
  induction entries generalizing h with
  | nil => simp [List.forM, exec_pure]
  | cons e entries ih =>
    rw [List.forM, exec_bind_of_ok (exec_log e h), ih]
    simp

theorem exec_forM_printLine (lines : List String) (h : Host) :
    ∃ output, (lines.forM printLine).exec h = (.ok (), { h with output := output }) := by
  induction lines generalizing h with
  | nil => exact ⟨h.output, rfl⟩
  | cons s lines ih =>
    rw [List.forM, exec_bind_of_ok (exec_printLine s h)]
    exact ih _

/-! ## What every run keeps -/

/-- If `I` holds of the files before a run, it does so after it, whether the run fails or not. -/
def Keeps (I : FileTree → Prop) (c : Command α) : Prop := ∀ h, I h.tree → I (c.exec h).2.tree

namespace Keeps

variable {I : FileTree → Prop} {c : Command α} {f : α → Command β}

theorem pure (a : α) : Keeps I (pure a : Command α) := fun _ hI => hI

theorem bind (hc : Keeps I c) (hf : ∀ a, Keeps I (f a)) : Keeps I (c >>= f) := by
  intro h hI
  have hmid := hc h hI
  cases hr : c.exec h with
  | mk r h' =>
    rw [hr] at hmid
    cases r with
    | ok a =>
      rw [exec_bind_of_ok hr]
      exact hf a h' hmid
    | error e => rwa [exec_bind_of_error hr]

theorem map (hc : Keeps I c) (g : α → β) : Keeps I (g <$> c) := by
  rw [map_eq_pure_bind]
  exact bind hc fun _ => pure _

/-- What follows a look at the files may rely on what holds of them. -/
theorem files_bind {f : FileTree → Command β} (hf : ∀ t, I t → Keeps I (f t)) :
    Keeps I (files >>= f) := by
  intro h hI
  rw [exec_bind_of_ok (exec_files h)]
  exact hf h.tree hI h hI

theorem orFail (r : Except ε α) (explain : ε → Failure) : Keeps I (orFail r explain) := by
  intro h hI
  cases r with
  | ok a => exact hI
  | error e => exact hI

theorem printLine (s : String) : Keeps I (printLine s) := fun _ hI => hI

theorem log (e : LogEntry) : Keeps I (log e) := fun _ hI => hI

theorem forM {f : α → Command PUnit} (hf : ∀ a, Keeps I (f a)) (xs : List α) : Keeps I (xs.forM f) := by
  induction xs with
  | nil => exact pure _
  | cons x xs ih => exact bind (hf x) fun _ => ih

theorem makeDirAll {doing : String} {p : Path} (hI : ∀ t, I t → I (t.makeDirAll p).2) :
    Keeps I (makeDirAll doing p) := by
  refine files_bind fun t ht => bind ?_ fun _ => orFail _ _
  intro h _
  exact hI t ht

theorem writeFile {doing : String} {p : Path} {text : String}
    (hI : ∀ t t', I t → t.write p (Text.encode text) = .ok t' → I t') :
    Keeps I (writeFile doing p text) := by
  refine files_bind fun t ht => ?_
  intro h hh
  cases hw : t.write p (Text.encode text) with
  | ok t' =>
    rw [exec_bind_of_ok (exec_orFail_ok t' _ h)]
    exact hI t t' ht hw
  | error e =>
    rw [exec_bind_of_error (exec_orFail_error e _ h)]
    exact hh

/-- Telling about a project changes no file. -/
theorem projectInfo (root : String) (json : Bool) : Keeps I (projectInfo root json) := by
  refine files_bind fun t _ => bind (orFail _ _) fun config => ?_
  cases json with
  | true => exact printLine _
  | false => exact forM printLine _

/-- Telling about the issues changes no file. -/
theorem listIssues (json : Bool) : Keeps I (listIssues json) := by
  cases json with
  | true => exact printLine _
  | false => exact bind (printLine _) fun _ => forM (fun _ => printLine _) _

end Keeps

theorem exec_makeDirAll_of_ok {doing : String} {p : Path} {h : Host} {t : FileTree}
    (hm : h.tree.makeDirAll p = (.ok (), t)) :
    (makeDirAll doing p).exec h = (.ok (), { h with tree := t }) := by
  rw [makeDirAll, exec_bind_of_ok (exec_files h), hm]
  rfl

theorem exec_makeDirAll_of_error {doing : String} {p : Path} {h : Host} {t : FileTree} {e : SysError}
    (hm : h.tree.makeDirAll p = (.error e, t)) :
    (makeDirAll doing p).exec h = (.error (.ofSystem doing p e), { h with tree := t }) := by
  rw [makeDirAll, exec_bind_of_ok (exec_files h), hm]
  rfl

theorem exec_writeFile_of_ok {doing : String} {p : Path} {text : String} {h : Host} {t : FileTree}
    (hw : h.tree.write p (Text.encode text) = .ok t) :
    (writeFile doing p text).exec h = (.ok (), { h with tree := t }) := by
  rw [writeFile, exec_bind_of_ok (exec_files h), hw]
  rfl

/-- Directories that were made stay when a later one cannot be made. -/
theorem exec_makeDirAll_snd (doing : String) (p : Path) (h : Host) :
    ((makeDirAll doing p).exec h).2 = { h with tree := (h.tree.makeDirAll p).2 } := by
  rw [makeDirAll, exec_bind_of_ok (exec_files h)]
  cases hm : h.tree.makeDirAll p with
  | mk r t => cases r <;> rfl

theorem of_exec_writeFile {doing : String} {p : Path} {text : String} {h h' : Host} {u : Unit}
    (hw : (writeFile doing p text).exec h = (.ok u, h')) :
    ∃ t, h.tree.write p (Text.encode text) = .ok t ∧ h' = { h with tree := t } := by
  rw [writeFile, exec_bind_of_ok (exec_files h)] at hw
  cases ht : h.tree.write p (Text.encode text) with
  | error e =>
    rw [ht] at hw
    cases hw
  | ok t =>
    rw [ht] at hw
    cases hw
    exact ⟨t, rfl, rfl⟩

theorem eq_of_exec_writeFile_error {doing : String} {p : Path} {text : String} {h h' : Host} {e : Failure}
    (hw : (writeFile doing p text).exec h = (.error e, h')) : h' = h := by
  rw [writeFile, exec_bind_of_ok (exec_files h)] at hw
  cases ht : h.tree.write p (Text.encode text) with
  | error _ =>
    rw [ht] at hw
    cases hw
    rfl
  | ok t =>
    rw [ht] at hw
    cases hw

/-- Makes the directories above a path. -/
def makeAbove (p : Path) : Command Unit :=
  match p.parent? with
  | some parent =>
    if !parent.symbols.isEmpty then makeDirAll "Failed to create report dir" parent else pure ()
  | none => pure ()

theorem makeAbove_eq {p parent : Path} (hparent : p.parent? = some parent) (hne : parent.symbols ≠ []) :
    makeAbove p = makeDirAll "Failed to create report dir" parent := by
  have hempty : parent.symbols.isEmpty = false := by simpa using hne
  simp [makeAbove, hparent, hempty]

theorem writeReport_eq (file : Path) (report : AuditReport) : writeReport file report =
    makeAbove file >>= fun _ =>
      writeFile "Failed to write scan report" file (AuditReport.codec.pretty report) >>= fun _ =>
        log ⟨.info, .scanCommand, "wrote report to " ++ file.text⟩ := by
  rw [writeReport, makeAbove]
  cases file.parent? with
  | none => rfl
  | some parent =>
    by_cases hempty : (!parent.symbols.isEmpty) = true
    · simp only [hempty, if_true]
    · simp only [hempty, Bool.false_eq_true, if_false]
      rfl

theorem exec_writeReport_of_ok {path parent : Path} {report : AuditReport} {h : Host} {t t' : FileTree}
    (hparent : path.parent? = some parent) (hne : parent.symbols ≠ [])
    (hm : h.tree.makeDirAll parent = (.ok (), t))
    (hw : t.write path (Text.encode (AuditReport.codec.pretty report)) = .ok t') :
    ∃ log, (writeReport path report).exec h = (.ok (), { h with tree := t', log := log }) := by
  have hmake : (makeAbove path).exec h = (.ok (), { h with tree := t }) := by
    rw [makeAbove_eq hparent hne]
    exact exec_makeDirAll_of_ok hm
  rw [writeReport_eq, exec_bind_of_ok hmake, exec_bind_of_ok (exec_writeFile_of_ok hw)]
  exact ⟨_, rfl⟩

theorem exec_initProject_of_ok {root : String} {name : Option String} {path : Path} {h : Host}
    {t₁ t₂ t₃ : FileTree} (hroot : h.tree.resolveRoot root = path)
    (hmeta : h.tree.makeDirAll (ProjectLayout.metaDir ⟨path⟩) = (.ok (), t₁))
    (hreports : t₁.makeDirAll (ProjectLayout.reportsDir ⟨path⟩) = (.ok (), t₂))
    (hw : t₂.write (ProjectLayout.configFile ⟨path⟩) (Text.encode (ProjectConfig.codec.pretty
      (.ofName (name.getD (ProjectLayout.inferredName path))))) = .ok t₃) :
    ∃ output, (initProject root name).exec h = (.ok (), { h with tree := t₃, output := output }) := by
  have hwrite := @exec_writeFile_of_ok "Failed to write project config" _ _ { h with tree := t₂ } _ hw
  rw [initProject, exec_bind_of_ok (exec_files h), hroot, exec_bind_of_ok (exec_makeDirAll_of_ok hmeta),
    exec_bind_of_ok (exec_makeDirAll_of_ok hreports), exec_bind_of_ok hwrite]
  exact ⟨_, rfl⟩

/-! ## The stages of an audit -/

/-- Loads units if a file of them is named. -/
def givenUnits : Option String → Command (Option AnalysisUnits)
  | some file => some <$> loadUnits file
  | none => pure none

/-- Hands a report over: to a file if there is one for it, and in print. -/
def deliver (file : Option Path) (json : Bool) (report : AuditReport) : Command AuditReport := do
  match file with
  | some file => writeReport file report
  | none => pure ()
  if json then printLine (AuditReport.codec.pretty report) else report.lines.forM printLine
  return report

/-- What is said of a project that cannot be loaded. -/
def loadFailure (path : Path) (e : ProjectError) : Failure :=
  ⟨"Failed to load project at " ++ path.text, e.message :: e.causes⟩

/-- Audits a project that is loaded, with units that are loaded. -/
def conclude (t : FileTree) (p : Project) (path : Path) (json : Bool) (output : Option String)
    (loaded : Option AnalysisUnits) : Command AuditReport := do
  let audit := p.audit .standard t loaded (← get).time
  audit.2.forM log
  (audit.1.missingDigests t path).forM log
  deliver (reportPath? t p.layout output) json (audit.1.attest t path)

/-- An audit in its stages. -/
theorem scan_eq (root : String) (units : Option String) (json : Bool) (output : Option String) :
    scan root units json output = files >>= fun t =>
      orFail (Project.ofRoot t (t.resolveRoot root)) (loadFailure (t.resolveRoot root)) >>= fun p =>
        givenUnits units >>= conclude t p (t.resolveRoot root) json output := by
  cases units <;> rfl

section

variable {root : String} {units : Option String} {json : Bool} {output : Option String} {h h' : Host}
  {p : Project} {loaded : Option AnalysisUnits} {file : Path} {report : AuditReport}

theorem exec_givenUnits_ok (hu : AnalysisUnits.loadGiven h.tree units = .ok loaded) :
    ∃ log, (givenUnits units).exec h = (.ok loaded, { h with log := log }) := by
  cases units with
  | none => cases hu; exact ⟨h.log, rfl⟩
  | some file =>
    rw [AnalysisUnits.loadGiven] at hu
    cases hl : AnalysisUnits.load h.tree (.ofString file) with
    | error e => rw [hl] at hu; cases hu
    | ok u =>
      rw [hl] at hu
      cases hu
      have hload : ∃ log, (loadUnits file).exec h = (.ok u, { h with log := log }) := by
        rw [loadUnits, exec_bind_of_ok (exec_files h), hl, exec_bind_of_ok (exec_orFail_ok u _ h),
          exec_bind_of_ok (exec_log _ h)]
        exact ⟨_, rfl⟩
      obtain ⟨log, hload⟩ := hload
      exact ⟨log, exec_map_of_ok some hload⟩

theorem exec_givenUnits_error {e : UnitsError}
    (hu : AnalysisUnits.loadGiven h.tree units = .error e) :
    (givenUnits units).exec h = (.error ⟨e.message, e.causes⟩, h) := by
  cases units with
  | none => cases hu
  | some file =>
    rw [AnalysisUnits.loadGiven] at hu
    cases hl : AnalysisUnits.load h.tree (.ofString file) with
    | ok u => rw [hl] at hu; cases hu
    | error e =>
      rw [hl] at hu
      cases hu
      refine exec_map_of_error some ?_
      rw [loadUnits, exec_bind_of_ok (exec_files h), hl]
      exact exec_bind_of_error (exec_orFail_error e _ h)

/-- A project that cannot be loaded is not audited. -/
theorem exec_scan_of_unloadable {e : ProjectError}
    (he : Project.ofRoot h.tree (h.tree.resolveRoot root) = .error e) :
    (scan root units json output).exec h = (.error (loadFailure (h.tree.resolveRoot root) e), h) := by
  rw [scan_eq, exec_bind_of_ok (exec_files h), he]
  exact exec_bind_of_error (exec_orFail_error e _ h)

/-- A project is not audited with units that cannot be loaded. -/
theorem exec_scan_of_badUnits {e : UnitsError}
    (hp : Project.ofRoot h.tree (h.tree.resolveRoot root) = .ok p)
    (hu : AnalysisUnits.loadGiven h.tree units = .error e) :
    (scan root units json output).exec h = (.error ⟨e.message, e.causes⟩, h) := by
  rw [scan_eq, exec_bind_of_ok (exec_files h), hp, exec_bind_of_ok (exec_orFail_ok p _ h)]
  exact exec_bind_of_error (exec_givenUnits_error hu)

/-- Once all is loaded the report is made, from the files as they were, and delivered. -/
theorem exec_scan_of_loaded (hp : Project.ofRoot h.tree (h.tree.resolveRoot root) = .ok p)
    (hu : AnalysisUnits.loadGiven h.tree units = .ok loaded) :
    ∃ log, (scan root units json output).exec h =
      (deliver (reportPath? h.tree p.layout output) json
        ((p.audit .standard h.tree loaded h.time).1.attest h.tree p.layout.root)).exec
        { h with log := log } := by
  obtain ⟨log, hgiven⟩ := exec_givenUnits_ok hu
  obtain ⟨hlayout, -⟩ := Project.of_ofRoot hp
  rw [scan_eq, exec_bind_of_ok (exec_files h), hp, exec_bind_of_ok (exec_orFail_ok p _ h),
    exec_bind_of_ok hgiven, conclude, exec_bind_of_ok (exec_get _), exec_bind_of_ok (exec_forM_log _ _),
    exec_bind_of_ok (exec_forM_log _ _), hlayout]
  exact ⟨_, rfl⟩

/-! ## Delivery -/

theorem exec_deliver_none (json : Bool) (report : AuditReport) (h : Host) :
    ∃ output, (deliver none json report).exec h = (.ok report, { h with output := output }) := by
  cases json with
  | true => exact ⟨_, rfl⟩
  | false =>
    obtain ⟨output, hprint⟩ := exec_forM_printLine report.lines h
    refine ⟨output, ?_⟩
    show (report.lines.forM printLine >>= fun _ => pure report).exec h = _
    rw [exec_bind_of_ok hprint, exec_pure]

theorem exec_deliver_some (json : Bool) (report : AuditReport) (h : Host) :
    (deliver (some file) json report).exec h =
      (writeReport file report >>= fun _ => deliver none json report).exec h := rfl

/-- A report that is delivered is the one that was made. -/
theorem eq_of_deliver {dest : Option Path} {made : AuditReport}
    (hd : (deliver dest json made).exec h = (.ok report, h')) : report = made := by
  cases dest with
  | none =>
    obtain ⟨output, hmade⟩ := exec_deliver_none json made h
    rw [hmade] at hd
    exact (Except.ok.inj (Prod.mk.inj hd).1).symm
  | some file =>
    rw [exec_deliver_some] at hd
    obtain ⟨_, h₁, -, hd⟩ := of_exec_bind hd
    obtain ⟨output, hmade⟩ := exec_deliver_none json made h₁
    rw [hmade] at hd
    exact (Except.ok.inj (Prod.mk.inj hd).1).symm

/-- An audit that succeeds has loaded all and delivered the report that it made. -/
theorem deliver_of_scan (hs : (scan root units json output).exec h = (.ok report, h')) :
    ∃ p loaded log, Project.ofRoot h.tree (h.tree.resolveRoot root) = .ok p ∧
      AnalysisUnits.loadGiven h.tree units = .ok loaded ∧
      (deliver (reportPath? h.tree p.layout output) json
        ((p.audit .standard h.tree loaded h.time).1.attest h.tree p.layout.root)).exec
        { h with log := log } = (.ok report, h') := by
  cases hp : Project.ofRoot h.tree (h.tree.resolveRoot root) with
  | error e =>
    rw [exec_scan_of_unloadable hp] at hs
    cases (Prod.mk.inj hs).1
  | ok p =>
    cases hu : AnalysisUnits.loadGiven h.tree units with
    | error e =>
      rw [exec_scan_of_badUnits hp hu] at hs
      cases (Prod.mk.inj hs).1
    | ok loaded =>
      obtain ⟨log, hrun⟩ := @exec_scan_of_loaded root units json output h p loaded hp hu
      rw [hrun] at hs
      exact ⟨p, loaded, log, rfl, rfl, hs⟩

/-- The report of an audit that succeeds. -/
theorem report_of_scan (hs : (scan root units json output).exec h = (.ok report, h')) :
    ∃ p loaded, Project.ofRoot h.tree (h.tree.resolveRoot root) = .ok p ∧
      AnalysisUnits.loadGiven h.tree units = .ok loaded ∧
      report = (p.audit .standard h.tree loaded h.time).1.attest h.tree p.layout.root := by
  obtain ⟨p, loaded, log, hp, hu, hd⟩ := deliver_of_scan hs
  exact ⟨p, loaded, hp, hu, eq_of_deliver hd⟩

/-- An audit succeeds if all is loaded and its report can be written. -/
theorem exec_scan_of_written (hp : Project.ofRoot h.tree (h.tree.resolveRoot root) = .ok p)
    (hu : AnalysisUnits.loadGiven h.tree units = .ok loaded)
    (hdest : reportPath? h.tree p.layout output = some file) {parent : Path} {t t' : FileTree}
    (hparent : file.parent? = some parent) (hne : parent.symbols ≠ [])
    (hm : h.tree.makeDirAll parent = (.ok (), t))
    (hw : t.write file (Text.encode (AuditReport.codec.pretty
      ((p.audit .standard h.tree loaded h.time).1.attest h.tree p.layout.root))) = .ok t')
    (json : Bool) :
    ∃ h', (scan root units json output).exec h =
      (.ok ((p.audit .standard h.tree loaded h.time).1.attest h.tree p.layout.root), h') := by
  obtain ⟨log, hrun⟩ := @exec_scan_of_loaded root units json output h p loaded hp hu
  obtain ⟨log', hwrite⟩ := @exec_writeReport_of_ok _ _ _ { h with log := log } _ _ hparent hne hm hw
  rw [hdest, exec_deliver_some, exec_bind_of_ok hwrite] at hrun
  obtain ⟨printed, hdeliver⟩ := exec_deliver_none json
    ((p.audit .standard h.tree loaded h.time).1.attest h.tree p.layout.root) _
  exact ⟨_, hrun.trans hdeliver⟩

/-- An audit keeps what the writing of its report keeps. -/
theorem Keeps.scan {I : FileTree → Prop}
    (hwrite : ∀ t p file report, I t → Project.ofRoot t (t.resolveRoot root) = .ok p →
      reportPath? t p.layout output = some file → Keeps I (writeReport file report)) :
    Keeps I (scan root units json output) := by
  have hnone (report : AuditReport) : Keeps I (deliver none json report) := by
    intro h hI
    obtain ⟨output, hrun⟩ := exec_deliver_none json report h
    rwa [hrun]
  intro h hI
  cases hp : Project.ofRoot h.tree (h.tree.resolveRoot root) with
  | error e => rwa [exec_scan_of_unloadable hp]
  | ok p =>
    cases hu : AnalysisUnits.loadGiven h.tree units with
    | error e => rwa [exec_scan_of_badUnits hp hu]
    | ok loaded =>
      obtain ⟨log, hrun⟩ := @exec_scan_of_loaded root units json output h p loaded hp hu
      rw [hrun]
      cases hdest : reportPath? h.tree p.layout output with
      | none => exact hnone _ _ hI
      | some file =>
        rw [exec_deliver_some]
        exact bind (hwrite _ _ _ _ hI hp hdest) (fun _ => hnone _) _ hI

end

end Command

end AndroidAudit
