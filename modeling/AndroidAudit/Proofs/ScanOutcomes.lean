import AndroidAudit.Proofs.FlaggedFiles

/-!
# When an audit fails

An audit fails if its settings or its units cannot be loaded or its report cannot be delivered, and for no
other reason: `scan_outcomes` says which failure it is, and that it is the first of these three.

Whether a report can be delivered is a matter of the path alone. The directories above it are made, and
then a file can be written there or it cannot, whatever is to be in it (`FileTree.write_of_write`). So the
findings have no say in it, and neither have the files that are met on the way.
-/

namespace AndroidAudit

/-! ## Delivery -/

namespace FileTree

variable {t t' : FileTree} {p : Path}

/-- Whether a file can be written at a path does not depend on what is to be in it. -/
theorem write_of_write {bytes : List UInt8} (hw : t.write p bytes = .ok t') (other : List UInt8) :
    ∃ t'', t.write p other = .ok t'' := by
  unfold write at hw ⊢
  split at hw
  · exact ⟨_, rfl⟩
  · exact ⟨_, rfl⟩
  · cases hw
  · cases hw

theorem write_error_of_write_error {bytes : List UInt8} {e : SysError}
    (hw : t.write p bytes = .error e) (other : List UInt8) : t.write p other = .error e := by
  unfold write at hw ⊢
  split at hw
  · cases hw
  · cases hw
  · exact hw
  · exact hw

/-- The tree once the directories above a path are made, if there are any to be made. -/
inductive MadeAbove (t : FileTree) (p : Path) : FileTree → Prop where
  | none : (∀ parent, p.parent? = some parent → parent.symbols = []) → MadeAbove t p t
  | dirs {parent : Path} {t' : FileTree} : p.parent? = some parent → parent.symbols ≠ [] →
      t.makeDirAll parent = (.ok (), t') → MadeAbove t p t'

/-- A report can be delivered to a path: the directories above it can be made, and then any file can be
written there. -/
def Deliverable (t : FileTree) (p : Path) : Prop :=
  ∃ t', t.MadeAbove p t' ∧ ∀ bytes, ∃ t'', t'.write p bytes = .ok t''

/-- Why a report cannot be delivered to a path. -/
inductive Undeliverable (t : FileTree) (p : Path) : Failure → Prop where
  /-- A directory above it cannot be made. -/
  | above {parent : Path} {e : SysError} {t' : FileTree} : p.parent? = some parent →
      parent.symbols ≠ [] → t.makeDirAll parent = (.error e, t') →
      Undeliverable t p (.ofSystem "Failed to create report dir" parent e)
  /-- No file can be written there. -/
  | file {t' : FileTree} {e : SysError} : t.MadeAbove p t' →
      (∀ bytes, t'.write p bytes = .error e) →
      Undeliverable t p (.ofSystem "Failed to write scan report" p e)

/-- One or the other is the case. -/
theorem deliverable_or_undeliverable (t : FileTree) (p : Path) :
    t.Deliverable p ∨ ∃ e, t.Undeliverable p e := by
  have hwrite {t' : FileTree} (hmade : t.MadeAbove p t') :
      t.Deliverable p ∨ ∃ e, t.Undeliverable p e := by
    cases hw : t'.write p [] with
    | ok t'' => exact .inl ⟨t', hmade, write_of_write hw⟩
    | error e => exact .inr ⟨_, .file hmade (write_error_of_write_error hw)⟩
  by_cases hnone : ∀ parent, p.parent? = some parent → parent.symbols = []
  · exact hwrite (.none hnone)
  · push Not at hnone
    obtain ⟨parent, hparent, hne⟩ := hnone
    cases hm : t.makeDirAll parent with
    | mk r t' =>
      cases r with
      | ok _ => exact hwrite (.dirs hparent hne hm)
      | error e => exact .inr ⟨_, .above hparent hne hm⟩

end FileTree

namespace Command

variable {file : Path} {h : Host} {e : Failure}

theorem exec_makeAbove_of_madeAbove {t : FileTree} (hmade : h.tree.MadeAbove file t) :
    (makeAbove file).exec h = (.ok (), { h with tree := t }) := by
  cases hmade with
  | none hnone =>
    rw [makeAbove]
    cases hparent : file.parent? with
    | none => rfl
    | some parent =>
      have hempty : parent.symbols.isEmpty = true := by simp [hnone parent hparent]
      simp [hempty, exec_pure]
  | dirs hparent hne hm =>
    rw [makeAbove_eq hparent hne]
    exact exec_makeDirAll_of_ok hm

theorem exec_writeFile_of_error {doing : String} {p : Path} {text : String} {e : SysError}
    (hw : h.tree.write p (Text.encode text) = .error e) :
    (writeFile doing p text).exec h = (.error (.ofSystem doing p e), h) := by
  rw [writeFile, exec_bind_of_ok (exec_files h), hw]
  rfl

theorem exec_writeReport_of_deliverable (hfile : h.tree.Deliverable file) (report : AuditReport) :
    ∃ h', (writeReport file report).exec h = (.ok (), h') := by
  obtain ⟨t, hmade, hwritable⟩ := hfile
  obtain ⟨t', hw⟩ := hwritable (Text.encode (AuditReport.codec.pretty report))
  have hwrite := @exec_writeFile_of_ok "Failed to write scan report" _ _ { h with tree := t } _ hw
  rw [writeReport_eq, exec_bind_of_ok (exec_makeAbove_of_madeAbove hmade), exec_bind_of_ok hwrite]
  exact ⟨_, rfl⟩

theorem exec_writeReport_of_undeliverable (hfile : h.tree.Undeliverable file e) (report : AuditReport) :
    ∃ h', (writeReport file report).exec h = (.error e, h') := by
  rw [writeReport_eq]
  cases hfile with
  | @above parent e t hparent hne hm =>
    rw [makeAbove_eq hparent hne]
    exact ⟨_, exec_bind_of_error (exec_makeDirAll_of_error hm)⟩
  | @file t e hmade hunwritable =>
    have hwrite := @exec_writeFile_of_error { h with tree := t } "Failed to write scan report" file
      (AuditReport.codec.pretty report) e (hunwritable _)
    rw [exec_bind_of_ok (exec_makeAbove_of_madeAbove hmade)]
    exact ⟨_, exec_bind_of_error hwrite⟩

/-- A report is delivered if it has nowhere to go or can go there. -/
theorem exec_deliver_of_deliverable {dest : Option Path}
    (hdest : ∀ file, dest = some file → h.tree.Deliverable file) (json : Bool) (report : AuditReport) :
    ∃ h', (deliver dest json report).exec h = (.ok report, h') := by
  cases dest with
  | none =>
    obtain ⟨output, hrun⟩ := exec_deliver_none json report h
    exact ⟨_, hrun⟩
  | some file =>
    obtain ⟨h₁, hwrite⟩ := exec_writeReport_of_deliverable (hdest file rfl) report
    obtain ⟨output, hrun⟩ := exec_deliver_none json report h₁
    rw [exec_deliver_some, exec_bind_of_ok hwrite]
    exact ⟨_, hrun⟩

theorem exec_deliver_of_undeliverable (hfile : h.tree.Undeliverable file e) (json : Bool)
    (report : AuditReport) : ∃ h', (deliver (some file) json report).exec h = (.error e, h') := by
  obtain ⟨h₁, hwrite⟩ := exec_writeReport_of_undeliverable hfile report
  rw [exec_deliver_some]
  exact ⟨h₁, exec_bind_of_error hwrite⟩

end Command

/-! ## Outcomes -/

/-- Why an audit fails: for its settings, else for its units, else for the place of its report. -/
inductive ScanFails (t : FileTree) (root : String) (units output : Option String) : Failure → Prop where
  | settings {e : ProjectError} : Project.ofRoot t (t.resolveRoot root) = .error e →
      ScanFails t root units output (Command.loadFailure (t.resolveRoot root) e)
  | units {p : Project} {e : UnitsError} : Project.ofRoot t (t.resolveRoot root) = .ok p →
      AnalysisUnits.loadGiven t units = .error e →
      ScanFails t root units output ⟨e.message, e.causes⟩
  | report {p : Project} {loaded : Option AnalysisUnits} {file : Path} {e : Failure} :
      Project.ofRoot t (t.resolveRoot root) = .ok p → AnalysisUnits.loadGiven t units = .ok loaded →
      Command.reportPath? t ⟨t.resolveRoot root⟩ output = some file → t.Undeliverable file e →
      ScanFails t root units output e

/-- What an audit needs of its host. -/
structure ScanSucceeds (t : FileTree) (root : String) (units output : Option String) : Prop where
  settings : ∃ p, Project.ofRoot t (t.resolveRoot root) = .ok p
  units : ∃ loaded, AnalysisUnits.loadGiven t units = .ok loaded
  report : ∀ file, Command.reportPath? t ⟨t.resolveRoot root⟩ output = some file → t.Deliverable file

section

variable {root : String} {units output : Option String} {h : Host} {e : Failure}

theorem scanSucceeds_or_scanFails (t : FileTree) (root : String) (units output : Option String) :
    ScanSucceeds t root units output ∨ ∃ e, ScanFails t root units output e := by
  cases hp : Project.ofRoot t (t.resolveRoot root) with
  | error e => exact .inr ⟨_, .settings hp⟩
  | ok p =>
    cases hu : AnalysisUnits.loadGiven t units with
    | error e => exact .inr ⟨_, .units hp hu⟩
    | ok loaded =>
      cases hdest : Command.reportPath? t ⟨t.resolveRoot root⟩ output with
      | none => exact .inl ⟨⟨p, hp⟩, ⟨loaded, hu⟩, by simp [hdest]⟩
      | some file =>
        rcases t.deliverable_or_undeliverable file with hfile | ⟨e, hfile⟩
        · refine .inl ⟨⟨p, hp⟩, ⟨loaded, hu⟩, fun file' hfile' => ?_⟩
          rw [hdest] at hfile'
          exact Option.some.inj hfile' ▸ hfile
        · exact .inr ⟨e, .report hp hu hdest hfile⟩

theorem ScanSucceeds.exec_scan (hs : ScanSucceeds h.tree root units output) (json : Bool) :
    ∃ report h', (Command.scan root units json output).exec h = (.ok report, h') := by
  obtain ⟨⟨p, hp⟩, ⟨loaded, hu⟩, hreport⟩ := hs
  obtain ⟨hlayout, -⟩ := Project.of_ofRoot hp
  obtain ⟨log, hrun⟩ := @Command.exec_scan_of_loaded root units json output h p loaded hp hu
  rw [hrun, hlayout]
  obtain ⟨h', hd⟩ := @Command.exec_deliver_of_deliverable { h with log := log } _ hreport json _
  exact ⟨_, h', hd⟩

theorem ScanFails.exec_scan (hf : ScanFails h.tree root units output e) (json : Bool) :
    ∃ h', (Command.scan root units json output).exec h = (.error e, h') := by
  cases hf with
  | settings he => exact ⟨h, Command.exec_scan_of_unloadable he⟩
  | units hp hu => exact ⟨h, Command.exec_scan_of_badUnits hp hu⟩
  | @report p loaded file _ hp hu hdest hfile =>
    obtain ⟨hlayout, -⟩ := Project.of_ofRoot hp
    obtain ⟨log, hrun⟩ := @Command.exec_scan_of_loaded root units json output h p loaded hp hu
    rw [hrun, hlayout, hdest]
    exact @Command.exec_deliver_of_undeliverable file { h with log := log } _ hfile json _

theorem exec_scan_ok_iff (json : Bool) :
    (∃ report h', (Command.scan root units json output).exec h = (.ok report, h')) ↔
      ScanSucceeds h.tree root units output := by
  refine ⟨?_, fun hs => hs.exec_scan json⟩
  rintro ⟨report, h', hrun⟩
  rcases scanSucceeds_or_scanFails h.tree root units output with hs | ⟨e, hf⟩
  · exact hs
  · obtain ⟨h'', hfail⟩ := hf.exec_scan json
    rw [hrun] at hfail
    cases hfail

theorem exec_scan_error_iff (json : Bool) :
    (∃ h', (Command.scan root units json output).exec h = (.error e, h')) ↔
      ScanFails h.tree root units output e := by
  refine ⟨?_, fun hf => hf.exec_scan json⟩
  rintro ⟨h', hrun⟩
  rcases scanSucceeds_or_scanFails h.tree root units output with hs | ⟨e', hf⟩
  · obtain ⟨report, h'', hok⟩ := hs.exec_scan json
    rw [hrun] at hok
    cases hok
  · obtain ⟨h'', hfail⟩ := hf.exec_scan json
    rw [hrun] at hfail
    cases hfail
    exact hf

/-- Two trees that answer alike to what an audit asks its host for. What else is in them may differ, and
so may the settings and units that are loaded. -/
structure SameForScan (root : String) (units output : Option String) (t t' : FileTree) : Prop where
  path : t.resolveRoot root = t'.resolveRoot root
  settings : ∀ e, Project.ofRoot t (t.resolveRoot root) = .error e ↔
    Project.ofRoot t' (t'.resolveRoot root) = .error e
  units : ∀ e, AnalysisUnits.loadGiven t units = .error e ↔ AnalysisUnits.loadGiven t' units = .error e
  destination : Command.reportPath? t ⟨t.resolveRoot root⟩ output =
    Command.reportPath? t' ⟨t'.resolveRoot root⟩ output
  delivery : ∀ file, Command.reportPath? t ⟨t.resolveRoot root⟩ output = some file →
    ∀ e, t.Undeliverable file e ↔ t'.Undeliverable file e

theorem SameForScan.symm {t t' : FileTree} (hsame : SameForScan root units output t t') :
    SameForScan root units output t' t where
  path := hsame.path.symm
  settings e := (hsame.settings e).symm
  units e := (hsame.units e).symm
  destination := hsame.destination.symm
  delivery file hfile e := (hsame.delivery file (hsame.destination.trans hfile) e).symm

theorem exists_ok_of_error_iff {ε α β : Type} {r : Except ε α} {r' : Except ε β}
    (h : ∀ e, r = .error e ↔ r' = .error e) {a : α} (ha : r = .ok a) : ∃ b, r' = .ok b := by
  cases hr' : r' with
  | ok b => exact ⟨b, rfl⟩
  | error e =>
    rw [(h e).mpr hr'] at ha
    cases ha

theorem ScanFails.of_same {t t' : FileTree} (hsame : SameForScan root units output t t')
    (hf : ScanFails t root units output e) : ScanFails t' root units output e := by
  cases hf with
  | settings he =>
    rw [hsame.path]
    exact .settings ((hsame.settings _).mp he)
  | units hp hu =>
    obtain ⟨p', hp'⟩ := exists_ok_of_error_iff hsame.settings hp
    exact .units hp' ((hsame.units _).mp hu)
  | report hp hu hdest hfile =>
    obtain ⟨p', hp'⟩ := exists_ok_of_error_iff hsame.settings hp
    obtain ⟨loaded', hu'⟩ := exists_ok_of_error_iff hsame.units hu
    exact .report hp' hu' (hsame.destination ▸ hdest) ((hsame.delivery _ hdest _).mp hfile)

end

/-- An audit succeeds if and only if its settings and its units are loaded and its report, if it goes to a
file, can be delivered. Else it fails as the first of these does. It comes to the same on every host that
answers alike in these three, whatever the files are that it meets and whatever it finds. -/
theorem scan_outcomes (root : String) (units : Option String) (json : Bool) (output : Option String)
    (h : Host) :
    ((∃ report h', (Command.scan root units json output).exec h = (.ok report, h')) ↔
      ScanSucceeds h.tree root units output) ∧
    (∀ e, (∃ h', (Command.scan root units json output).exec h = (.error e, h')) ↔
      ScanFails h.tree root units output e) ∧
    ∀ other, SameForScan root units output h.tree other.tree →
      ((Command.scan root units json output).exec other).1.map (fun _ => ()) =
        ((Command.scan root units json output).exec h).1.map (fun _ => ()) := by
  refine ⟨exec_scan_ok_iff json, fun e => exec_scan_error_iff json, fun other hsame => ?_⟩
  rcases scanSucceeds_or_scanFails h.tree root units output with hs | ⟨e, hf⟩
  · obtain ⟨report, h', hrun⟩ := hs.exec_scan json
    rcases scanSucceeds_or_scanFails other.tree root units output with hs' | ⟨e, hf'⟩
    · obtain ⟨report', h'', hrun'⟩ := hs'.exec_scan json
      rw [hrun, hrun']
      rfl
    · -- a failure on the other host would be one on this host
      obtain ⟨h'', hfail⟩ := (hf'.of_same hsame.symm).exec_scan json
      rw [hrun] at hfail
      cases hfail
  · obtain ⟨h', hrun⟩ := hf.exec_scan json
    obtain ⟨h'', hrun'⟩ := (hf.of_same hsame).exec_scan json
    rw [hrun, hrun']

/-- A native library among the resources is reported and makes no audit fail: to an audit without units
and without a place for its report, a project with one is the same as an empty one. -/
theorem scan_outcomes_library :
    let empty := workHost []
    let flagged := workHost (resources "libx.so" false)
    SameForScan "." none none empty.tree flagged.tree ∧
      ((Command.scan "." none true none).exec flagged).1.map (fun _ => ()) =
        ((Command.scan "." none true none).exec empty).1.map (fun _ => ()) ∧
      ∃ report h', (Command.scan "." none true none).exec flagged = (.ok report, h') ∧
        report.findings ≠ [] := by
  intro empty flagged
  have hnone : (Node.dir [] false).Linkless := Node.linkless_empty false
  have hlinks := linkless_resources "libx.so"
  have hroot : empty.tree.resolveRoot "." = FileTree.absolute workPlace :=
    FileTree.resolveRoot_of_spot (spot_workHost _)
  have hroot' : flagged.tree.resolveRoot "." = FileTree.absolute workPlace :=
    FileTree.resolveRoot_of_spot (spot_workHost _)
  have hp : Project.ofRoot empty.tree (empty.tree.resolveRoot ".") = .ok workProject :=
    ofRoot_workHost hnone rfl
  have hp' : Project.ofRoot flagged.tree (flagged.tree.resolveRoot ".") = .ok workProject :=
    ofRoot_workHost hlinks rfl
  have hdest : Command.reportPath? empty.tree ⟨empty.tree.resolveRoot "."⟩ none = none := by
    rw [hroot, Command.reportPath?, (holds_workHost hnone).isDir_reports (short_work _ (by simp))]
    rfl
  have hdest' : Command.reportPath? flagged.tree ⟨flagged.tree.resolveRoot "."⟩ none = none := by
    rw [hroot', Command.reportPath?, (holds_workHost hlinks).isDir_reports (short_work _ (by simp))]
    rfl
  have hsame : SameForScan "." none none empty.tree flagged.tree := by
    refine ⟨hroot.trans hroot'.symm, fun e => ?_, fun e => Iff.rfl, hdest.trans hdest'.symm,
      fun file hfile => ?_⟩
    · rw [hp, hp']
    · rw [hdest] at hfile
      cases hfile
  obtain ⟨report, h', hrun⟩ := (scan_outcomes "." none true none flagged).1.mpr
    ⟨⟨_, hp'⟩, ⟨none, rfl⟩, by simp [hdest']⟩
  refine ⟨hsame, (scan_outcomes "." none true none empty).2.2 flagged hsame, report, h', hrun, ?_⟩
  obtain ⟨p, loaded, hload, hu, rfl⟩ := Command.report_of_scan hrun
  obtain rfl := Except.ok.inj (hp'.symm.trans hload)
  have hflagged := @flagged_resources "libx.so" (by decide) (by decide)
  obtain ⟨f, hf, -⟩ := hflagged.exists_mem_attest rfl (node_workHost hlinks)
    (allowed_resources (by decide)) loaded flagged.time rfl workProject.layout.root
  exact List.ne_nil_of_mem hf

end AndroidAudit
