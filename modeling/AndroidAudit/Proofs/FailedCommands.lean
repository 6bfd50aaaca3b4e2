import AndroidAudit.Proofs.ReportDelivery

/-!
# Commands that fail

A command that fails has written nothing. Setting a project up and auditing it make directories and
then write one file, and after the file nothing can fail, so all that a failure may leave behind are
directories (`FileTree.OnlyDirsAdded`). `failed_commands_spare` says so of every command on a project, on
every tree, and that an audit makes no directory either before its settings and units are loaded.
-/

namespace AndroidAudit

/-! ## Trees with directories added -/

/-- A path ends as what is joined to it does. -/
theorem Path.getLast?_join (p : Path) {q : Path} (hne : q.symbols ≠ []) (hrel : q.isAbsolute = false) :
    (p.join q).symbols.getLast? = q.symbols.getLast? := by
  rw [join, hrel, if_neg (by simp)]
  split
  · exact List.getLast?_append_of_ne_nil _ hne
  · obtain ⟨s, rest, hq⟩ := List.exists_cons_of_ne_nil hne
    rw [List.getLast?_append_of_ne_nil _ (List.cons_ne_nil _ _), hq, List.getLast?_cons_cons]

namespace FileTree

variable {t t' t'' : FileTree} {paths : List Path}

/-- One tree is another with nothing but directories added: files have the bytes they had, links lead
where they led, neither are new, and directories are still there. -/
structure OnlyDirsAdded (t t' : FileTree) : Prop where
  cwd : t'.cwd = t.cwd
  files : ∀ place bytes closed,
    t'.root.get? place = some (.file bytes closed) ↔ t.root.get? place = some (.file bytes closed)
  links : ∀ place target,
    t'.root.get? place = some (.link target) ↔ t.root.get? place = some (.link target)
  dirs : ∀ place entries closed, t.root.get? place = some (.dir entries closed) →
    ∃ entries', t'.root.get? place = some (.dir entries' closed)

namespace OnlyDirsAdded

theorem refl (t : FileTree) : t.OnlyDirsAdded t :=
  ⟨rfl, fun _ _ _ => .rfl, fun _ _ => .rfl, fun _ entries _ h => ⟨entries, h⟩⟩

theorem trans (h : t.OnlyDirsAdded t') (h' : t'.OnlyDirsAdded t'') : t.OnlyDirsAdded t'' where
  cwd := h'.cwd.trans h.cwd
  files place bytes closed := (h'.files place bytes closed).trans (h.files place bytes closed)
  links place target := (h'.links place target).trans (h.links place target)
  dirs place entries closed hdir := by
    obtain ⟨entries', hdir'⟩ := h.dirs place entries closed hdir
    exact h'.dirs place entries' closed hdir'

end OnlyDirsAdded

theorem DirsMade.onlyDirsAdded (h : DirsMade t t' paths) : t.OnlyDirsAdded t' where
  cwd := h.cwd
  files _ _ _ := h.get?_iff rfl
  links _ _ := h.get?_iff rfl
  dirs place entries closed hm := by
    obtain ⟨m', hm', hbare⟩ := h.kept place _ hm
    obtain ⟨entries', rfl⟩ := Node.eq_dir_of_bare hbare
    exact ⟨entries', hm'⟩

/-- A path that something is joined to has a slash at its end only if that has. -/
theorem withoutEndSlash_join (p : Path) {q : Path} (hne : q.symbols ≠ []) (hrel : q.isAbsolute = false)
    (hend : q.symbols.getLast? ≠ some Path.slash) : withoutEndSlash (p.join q) = p.join q := by
  refine withoutEndSlash_eq ?_
  rwa [Path.getLast?_join p hne hrel]

end FileTree

theorem ProjectLayout.withoutEndSlash_metaDir (l : ProjectLayout) :
    FileTree.withoutEndSlash l.metaDir = l.metaDir :=
  FileTree.withoutEndSlash_join l.root (by decide) (by decide) (by decide)

theorem ProjectLayout.withoutEndSlash_reportsDir (l : ProjectLayout) :
    FileTree.withoutEndSlash l.reportsDir = l.reportsDir :=
  FileTree.withoutEndSlash_join l.root (by decide) (by decide) (by decide)

/-! ## Failures -/

namespace Command

variable {h h' : Host} {e : Failure}

/-- Directories that are made, be they all or some, add only directories. -/
theorem onlyDirsAdded_makeDirAll (doing : String) {p : Path} (hp : FileTree.withoutEndSlash p = p)
    (h : Host) : h.tree.OnlyDirsAdded ((makeDirAll doing p).exec h).2.tree := by
  rw [exec_makeDirAll_snd]
  exact (h.tree.dirsMade_makeDirAll hp).onlyDirsAdded

/-- A project that cannot be set up is left with a directory more or two. -/
theorem onlyDirsAdded_of_initProject {root : String} {name : Option String}
    (hrun : (initProject root name).exec h = (.error e, h')) : h.tree.OnlyDirsAdded h'.tree := by
  rw [initProject, exec_bind_of_ok (exec_files h)] at hrun
  have hmeta := onlyDirsAdded_makeDirAll "Failed to create meta dir"
    (ProjectLayout.withoutEndSlash_metaDir ⟨h.tree.resolveRoot root⟩) h
  rcases of_exec_bind_error hrun with hfail | ⟨_, h₁, hmake, hrun⟩
  · rwa [hfail] at hmeta
  · rw [hmake] at hmeta
    have hreports := onlyDirsAdded_makeDirAll "Failed to create reports dir"
      (ProjectLayout.withoutEndSlash_reportsDir ⟨h.tree.resolveRoot root⟩) h₁
    rcases of_exec_bind_error hrun with hfail | ⟨_, h₂, hmake', hrun⟩
    · rw [hfail] at hreports
      exact hmeta.trans hreports
    · rw [hmake'] at hreports
      -- the settings come last: once they are written nothing fails
      rcases of_exec_bind_error hrun with hfail | ⟨_, h₃, -, hprint⟩
      · rw [eq_of_exec_writeFile_error hfail]
        exact hmeta.trans hreports
      · cases hprint

theorem onlyDirsAdded_of_writeReport {file : Path} {report : AuditReport}
    (hrun : (writeReport file report).exec h = (.error e, h')) : h.tree.OnlyDirsAdded h'.tree := by
  rw [writeReport_eq] at hrun
  obtain ⟨t, ht, hmade⟩ := exec_makeAbove_snd file h
  rcases of_exec_bind_error hrun with hfail | ⟨_, h₁, hmake, hrun⟩
  · rw [hfail] at ht
    subst ht
    exact hmade.onlyDirsAdded
  · rw [hmake] at ht
    subst ht
    rcases of_exec_bind_error hrun with hfail | ⟨_, h₂, -, hlog⟩
    · rw [eq_of_exec_writeFile_error hfail]
      exact hmade.onlyDirsAdded
    · cases hlog

/-- A report that cannot be delivered has not been written. -/
theorem onlyDirsAdded_of_deliver {dest : Option Path} {json : Bool} {report : AuditReport}
    (hrun : (deliver dest json report).exec h = (.error e, h')) : h.tree.OnlyDirsAdded h'.tree := by
  have hprinted (h₁ : Host) : (deliver none json report).exec h₁ ≠ (.error e, h') := by
    obtain ⟨output, hok⟩ := exec_deliver_none json report h₁
    rw [hok]
    simp
  cases dest with
  | none => exact absurd hrun (hprinted h)
  | some file =>
    rw [exec_deliver_some] at hrun
    rcases of_exec_bind_error hrun with hfail | ⟨_, h₁, -, hrun⟩
    · exact onlyDirsAdded_of_writeReport hfail
    · exact absurd hrun (hprinted h₁)

theorem onlyDirsAdded_of_scan {root : String} {units : Option String} {json : Bool}
    {output : Option String} (hrun : (scan root units json output).exec h = (.error e, h')) :
    h.tree.OnlyDirsAdded h'.tree := by
  cases hp : Project.ofRoot h.tree (h.tree.resolveRoot root) with
  | error _ =>
    rw [exec_scan_of_unloadable hp] at hrun
    cases hrun
    exact .refl _
  | ok p =>
    cases hu : AnalysisUnits.loadGiven h.tree units with
    | error _ =>
      rw [exec_scan_of_badUnits hp hu] at hrun
      cases hrun
      exact .refl _
    | ok loaded =>
      obtain ⟨log, hdeliver⟩ := @exec_scan_of_loaded root units json output h p loaded hp hu
      rw [hdeliver] at hrun
      have hadded := onlyDirsAdded_of_deliver hrun
      exact hadded

/-- An audit whose settings or units cannot be loaded changes no file. -/
theorem tree_of_scan_of_unloaded {root : String} {units : Option String} (json : Bool)
    (output : Option String)
    (hunloaded : (∃ e, Project.ofRoot h.tree (h.tree.resolveRoot root) = .error e) ∨
      ∃ e, AnalysisUnits.loadGiven h.tree units = .error e) :
    ((scan root units json output).exec h).2.tree = h.tree := by
  cases hp : Project.ofRoot h.tree (h.tree.resolveRoot root) with
  | error _ => rw [exec_scan_of_unloadable hp]
  | ok p =>
    rcases hunloaded with ⟨e, he⟩ | ⟨e, hu⟩
    · rw [hp] at he
      cases he
    · rw [exec_scan_of_badUnits hp hu]

theorem exec_initProject_of_blocked {root : String} (name : Option String) {path : Path}
    {t₁ t₂ : FileTree} {e : SysError} (hroot : h.tree.resolveRoot root = path)
    (hmeta : h.tree.makeDirAll (ProjectLayout.metaDir ⟨path⟩) = (.ok (), t₁))
    (hreports : t₁.makeDirAll (ProjectLayout.reportsDir ⟨path⟩) = (.error e, t₂)) :
    ∃ e', (initProject root name).exec h = (.error e', { h with tree := t₂ }) := by
  have hmake : (makeDirAll "Failed to create reports dir" (ProjectLayout.reportsDir ⟨path⟩)).exec
      { h with tree := t₁ } = _ := exec_makeDirAll_of_error hreports
  rw [initProject, exec_bind_of_ok (exec_files h), hroot,
    exec_bind_of_ok (exec_makeDirAll_of_ok hmeta)]
  exact ⟨_, exec_bind_of_error hmake⟩

theorem exec_projectInfo_of_unloadable {root : String} (json : Bool) {e : ProjectError}
    (hload : ProjectLayout.loadConfig ⟨h.tree.resolveRoot root⟩ h.tree = .error e) :
    ∃ e', (projectInfo root json).exec h = (.error e', h) := by
  have hfail (describe : ProjectError → Failure) :
      (orFail (ProjectLayout.loadConfig ⟨h.tree.resolveRoot root⟩ h.tree) describe).exec h =
        (.error (describe e), h) := by
    rw [hload]
    exact exec_orFail_error e describe h
  rw [projectInfo, exec_bind_of_ok (exec_files h)]
  exact ⟨_, exec_bind_of_error (hfail _)⟩

theorem exec_scan_of_blocked {root : String} {units : Option String} (json : Bool)
    {output : Option String} {p : Project} {loaded : Option AnalysisUnits}
    (hp : Project.ofRoot h.tree (h.tree.resolveRoot root) = .ok p)
    (hu : AnalysisUnits.loadGiven h.tree units = .ok loaded) {file parent : Path}
    (hdest : reportPath? h.tree p.layout output = some file) (hparent : file.parent? = some parent)
    (hne : parent.symbols ≠ []) {t : FileTree} {e : SysError}
    (hm : h.tree.makeDirAll parent = (.error e, t)) :
    ∃ e' h', (scan root units json output).exec h = (.error e', h') := by
  obtain ⟨log, hrun⟩ := @exec_scan_of_loaded root units json output h p loaded hp hu
  have hmake : (makeAbove file).exec { h with log := log } =
      (.error (.ofSystem "Failed to create report dir" parent e), { h with tree := t, log := log }) := by
    rw [makeAbove_eq hparent hne]
    exact exec_makeDirAll_of_error hm
  rw [hrun, hdest, exec_deliver_some, writeReport_eq]
  exact ⟨_, _, exec_bind_of_error (exec_bind_of_error hmake)⟩

end Command

/-- A command on a project that fails loses nothing: every file has its bytes, every link is as it was,
and what is new are directories. Telling about a project adds none, and nor does an audit whose settings
or units cannot be loaded. -/
theorem failed_commands_spare (h : Host) :
    (∀ root name e h', (Command.initProject root name).exec h = (.error e, h') →
      h.tree.OnlyDirsAdded h'.tree) ∧
    (∀ root json e h', (Command.projectInfo root json).exec h = (.error e, h') → h'.tree = h.tree) ∧
    (∀ root units json output e h', (Command.scan root units json output).exec h = (.error e, h') →
      h.tree.OnlyDirsAdded h'.tree ∧
      ((∃ e, Project.ofRoot h.tree (h.tree.resolveRoot root) = .error e) ∨
        (∃ e, AnalysisUnits.loadGiven h.tree units = .error e) → h'.tree = h.tree)) := by
  refine ⟨fun root name e h' hrun => Command.onlyDirsAdded_of_initProject hrun,
    fun root json e h' hrun => ?_, fun root units json output e h' hrun => ⟨?_, fun hunloaded => ?_⟩⟩
  · have hkept := @Command.Keeps.projectInfo (· = h.tree) root json h rfl
    rwa [hrun] at hkept
  · exact Command.onlyDirsAdded_of_scan hrun
  · have hkept := Command.tree_of_scan_of_unloaded json output hunloaded
    rwa [hrun] at hkept

/-- With a file where the reports belong, setting up fails after it has made the directory of the
settings, and a report cannot be put below that file. Without settings there is nothing to tell about
the project, and units in an unknown format end an audit before it starts. -/
theorem failed_commands_spare_blocked :
    let h := workHost [(reportsName, .file [0x7B] false)]
    (∃ e h', (Command.initProject "." none).exec h = (.error e, h') ∧ h.tree.OnlyDirsAdded h'.tree ∧
      h'.tree.root.get? (workPlace ++ [metaName]) = some (.dir [] false)) ∧
    (∃ e h', (Command.projectInfo "." true).exec h = (.error e, h') ∧ h'.tree = h.tree) ∧
    (∃ e h', (Command.scan "." none true (some "/w/reports/scan.json")).exec h = (.error e, h') ∧
      h.tree.OnlyDirsAdded h'.tree) ∧
    (∃ e h', (Command.scan "." (some "units.txt") true none).exec h = (.error e, h') ∧
      h'.tree = h.tree) := by
  intro h
  obtain ⟨hinit, hinfo, hscan⟩ := failed_commands_spare h
  have hlinks : (Node.dir [(reportsName, .file [0x7B] false)] false).Linkless := by
    simp [Node.Linkless, Node.EveryDir, everyDirAmong]
  have hholds : h.tree.Holds workPlace [(reportsName, .file [0x7B] false)] false :=
    holds_workHost hlinks
  have hroot : h.tree.resolveRoot "." = FileTree.absolute workPlace :=
    FileTree.resolveRoot_of_spot (spot_workHost _)
  have hp : Project.ofRoot h.tree (h.tree.resolveRoot ".") = .ok workProject :=
    ofRoot_workHost hlinks rfl
  have hshort := short_work [reportsName] (by simp)
  refine ⟨?_, ?_, ?_, ?_⟩
  · have hmeta := hholds.makeDirAll_of_vacant allowed_metaName (by decide) rfl
    have hmade := hholds.put (Node.linkless_empty false) (by simp)
      (Node.put_singleton _ false metaName (.dir [] false))
    have hfile : (Node.putEntry metaName (.dir [] false)
        [(reportsName, .file [0x7B] false)]).lookup reportsName = some (.file [0x7B] false) := by
      rw [Node.lookup_putEntry, if_neg (by decide)]
      rfl
    have hreports := hmade.makeDirAll_of_lookup allowed_reportsName hshort hfile
    rw [← ProjectLayout.metaDir_absolute hholds.plain] at hmeta
    rw [← ProjectLayout.reportsDir_absolute hholds.plain] at hreports
    obtain ⟨e, hrun⟩ := Command.exec_initProject_of_blocked none hroot hmeta hreports
    exact ⟨e, _, hrun, hinit _ _ _ _ hrun, Node.get?_put_concat hholds.get? _ _⟩
  · have hload : ProjectLayout.loadConfig ⟨h.tree.resolveRoot "."⟩ h.tree =
        .error (.unreadable (ProjectLayout.configFile ⟨h.tree.resolveRoot "."⟩) .notFound) := by
      rw [hroot, ProjectLayout.loadConfig, hholds.readText_of_fresh (short_work _ (by simp)) rfl]
    obtain ⟨e, hrun⟩ := Command.exec_projectInfo_of_unloadable true hload
    exact ⟨e, h, hrun, hinfo _ _ _ _ hrun⟩
  · have hparent : (Path.ofString "/w/reports/scan.json").parent? =
        some (FileTree.absolute (workPlace ++ [reportsName])) :=
      @FileTree.parent?_absolute (workPlace ++ [reportsName]) (Name.ofString "scan.json")
        (by decide) (by decide)
    have hmake := hholds.makeDirAll_of_lookup allowed_reportsName hshort rfl
    have hdest : Command.reportPath? h.tree workProject.layout (some "/w/reports/scan.json") =
        some (.ofString "/w/reports/scan.json") := rfl
    have hu : AnalysisUnits.loadGiven h.tree none = .ok none := rfl
    obtain ⟨e, h', hrun⟩ := Command.exec_scan_of_blocked true hp hu hdest hparent (by decide) hmake
    exact ⟨e, h', hrun, (hscan _ _ _ _ _ _ hrun).1⟩
  · have hunits : AnalysisUnits.loadGiven h.tree (some "units.txt") =
        .error (.unsupported (.ofString "units.txt")) := by
      have hformat : UnitsFormat.ofPath? (.ofString "units.txt") = none := by decide
      rw [AnalysisUnits.loadGiven, AnalysisUnits.load, hformat]
      rfl
    have hrun := @Command.exec_scan_of_badUnits "." (some "units.txt") true none h _ _ hp hunits
    exact ⟨_, _, hrun, (hscan _ _ _ _ _ _ hrun).2 (.inr ⟨_, hunits⟩)⟩

end AndroidAudit
