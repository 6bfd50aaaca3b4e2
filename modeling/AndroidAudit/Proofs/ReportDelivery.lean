import AndroidAudit.Proofs.FlaggedFiles
import AndroidAudit.Proofs.RoundTrip
import AndroidAudit.Proofs.TreeEffects

/-!
# What an audit leaves behind

An audit that succeeds writes at most one file, its report, and to that end makes directories that are
missing above it (`FileTree.Delivered`). `scan_effects` says so for every tree, with links or without,
and that the text in the file and the text in print are read as the report that the audit gives.
-/

namespace AndroidAudit

/-- The paths above a path, the nearest first. -/
def Path.above (p : Path) : List Path := (p.parent?.map Path.ancestors).getD []

namespace FileTree

/-- One tree is another with a text written to a path: the path leads to a file with the text, where a
file or nothing was, and a file that was closed stays closed. All else that stood stands as it was, and
what else is new are directories to which paths above the path lead. -/
structure Delivered (t t' : FileTree) (p : Path) (text : String) (place : List Name) : Prop where
  cwd : t'.cwd = t.cwd
  found : t'.spot .target p =
    .ok (.taken place (.file (Text.encode text) (wasClosed (t.root.get? place))))
  free : ∀ m, t.root.get? place = some m → m.isFile = true
  kept : ∀ q m, q ≠ place → t.root.get? q = some m → ∃ m', t'.root.get? q = some m' ∧ m'.bare = m.bare
  made : ∀ q m, q ≠ place → t'.root.get? q = some m → t.root.get? q = none →
    m.isDir = true ∧ ∃ above ∈ p.above, t'.spot .target above = .ok (.taken q m)

variable {t t' t'' : FileTree} {p : Path} {text : String} {place : List Name}

theorem Delivered.readText (h : Delivered t t' p text place)
    (hopen : wasClosed (t.root.get? place) = false) : t'.readText p = .ok text := by
  rw [FileTree.readText, read, node, h.found, hopen]
  simp only [Text.decode?_encode]

/-- A file that is written after directories have been made above it. -/
theorem delivered_of_write (hmade : DirsMade t t' p.above)
    (hw : t'.write p (Text.encode text) = .ok t'') : ∃ place, Delivered t t'' p text place := by
  obtain ⟨place, hfree, hplaced⟩ := placed_of_write hw
  -- the file goes where no directory is, so what it takes the place of was there from the start
  have hold := hmade.get?_eq_of_free fun m hm => Node.isDir_of_isFile (hfree m hm)
  have hgrown : t'.root.Grown t''.root := hplaced.grown fun m hm => by
    rw [hm]
    cases m with
    | file old closed => rfl
    | link target => cases hfree _ hm
    | dir entries closed => cases hfree _ hm
  rw [hold] at hfree hplaced
  refine ⟨place, hplaced.cwd.trans hmade.cwd, hplaced.found, hfree, fun q m hq hm => ?_,
    fun q m hq hm hnone => ?_⟩
  · obtain ⟨m', hm', hbare⟩ := hmade.kept q m hm
    obtain ⟨m'', hm'', hbare'⟩ := Node.exists_of_map_bare (hplaced.elsewhere q hq) hm'
    exact ⟨m'', hm'', hbare'.trans hbare⟩
  · -- what is new is not the file, so it was made before the file was written
    obtain ⟨m', hm', -⟩ := Node.exists_of_map_bare (hplaced.elsewhere q hq).symm hm
    obtain ⟨hdir, above, habove, hspot⟩ := hmade.made q m' hm' hnone
    obtain ⟨hdir', hspot'⟩ := isDir_of_grown hplaced.cwd hgrown hdir hspot hm
    exact ⟨hdir', above, habove, hspot'⟩

end FileTree

namespace Command

variable {file : Path} {report made : AuditReport} {json : Bool} {h h' : Host}

/-- Only directories above the path are made, whether it fails or not. -/
theorem exec_makeAbove_snd (p : Path) (h : Host) :
    ∃ t, ((makeAbove p).exec h).2 = { h with tree := t } ∧ h.tree.DirsMade t p.above := by
  rw [makeAbove]
  cases hparent : p.parent? with
  | none => exact ⟨h.tree, rfl, .refl _ _⟩
  | some parent =>
    cases hempty : parent.symbols.isEmpty with
    | true => exact ⟨h.tree, by simp [hempty, exec_pure], .refl _ _⟩
    | false =>
      refine ⟨(h.tree.makeDirAll parent).2, ?_, ?_⟩
      · simpa [hempty] using exec_makeDirAll_snd "Failed to create report dir" parent h
      · rw [Path.above, hparent]
        exact h.tree.dirsMade_makeDirAll (FileTree.withoutEndSlash_of_parent? hparent)

/-- A report that is written is delivered, and nothing is printed on the way. -/
theorem delivered_of_writeReport {u : Unit} (hw : (writeReport file report).exec h = (.ok u, h')) :
    h'.output = h.output ∧
      ∃ place, h.tree.Delivered h'.tree file (AuditReport.codec.pretty report) place := by
  rw [writeReport_eq] at hw
  obtain ⟨_, h₁, hmake, hrest⟩ := of_exec_bind hw
  obtain ⟨t₁, hh₁, hmade⟩ := exec_makeAbove_snd file h
  rw [hmake] at hh₁
  subst hh₁
  obtain ⟨_, h₂, hwrite, hlog⟩ := of_exec_bind hrest
  obtain ⟨t, ht, rfl⟩ := of_exec_writeFile hwrite
  cases hlog
  exact ⟨rfl, FileTree.delivered_of_write hmade ht⟩

/-- The files are left alone by what is printed, and in print the report is its text with a line end. -/
theorem exec_deliver_none_snd (json : Bool) (report : AuditReport) (h : Host) :
    ((deliver none json report).exec h).2.tree = h.tree ∧
      (json = true → ((deliver none json report).exec h).2.output =
        h.output ++ AuditReport.codec.pretty report ++ "\n") := by
  cases json with
  | true => exact ⟨rfl, fun _ => rfl⟩
  | false =>
    obtain ⟨output, hrun⟩ := exec_deliver_none false report h
    rw [hrun]
    exact ⟨rfl, by simp⟩

/-- A report that is delivered to a path stands there, and in print as it stands there. -/
theorem of_exec_deliver {dest : Option Path} (hd : (deliver dest json made).exec h = (.ok report, h')) :
    (dest = none → h'.tree = h.tree) ∧
    (∀ file, dest = some file →
      ∃ place, h.tree.Delivered h'.tree file (AuditReport.codec.pretty report) place) ∧
    (json = true → h'.output = h.output ++ AuditReport.codec.pretty report ++ "\n") := by
  obtain rfl := eq_of_deliver hd
  cases dest with
  | none =>
    obtain ⟨htree, hprinted⟩ := exec_deliver_none_snd json report h
    rw [hd] at htree hprinted
    exact ⟨fun _ => htree, by simp, hprinted⟩
  | some file =>
    rw [exec_deliver_some] at hd
    obtain ⟨_, h₁, hwrite, hrest⟩ := of_exec_bind hd
    obtain ⟨houtput, place, hdelivered⟩ := delivered_of_writeReport hwrite
    obtain ⟨htree, hprinted⟩ := exec_deliver_none_snd json report h₁
    rw [hrest] at htree hprinted
    rw [← houtput]
    rw [← htree] at hdelivered
    refine ⟨by simp, fun file' hfile => ?_, hprinted⟩
    obtain rfl := Option.some.inj hfile
    exact ⟨place, hdelivered⟩

end Command

/-- An audit that succeeds changes no file but the one that its report goes to: the one that is named,
or else the latest report of a project that keeps reports. With neither, it changes nothing. The text
of the report is read as the report that is given, which has the digests of the files as they were, and
it is the text in the file and, if it is asked for, the text in print. -/
theorem scan_effects (root : String) (units : Option String) (json : Bool) (output : Option String)
    (h h' : Host) (report : AuditReport)
    (hs : (Command.scan root units json output).exec h = (.ok report, h')) :
    let layout : ProjectLayout := ⟨h.tree.resolveRoot root⟩
    let text := AuditReport.codec.pretty report
    let writtenTo (p : Path) := ∃ place, h.tree.Delivered h'.tree p text place ∧
      (wasClosed (h.tree.root.get? place) = false → h'.tree.readText p = .ok text)
    (∀ path, output = some path → writtenTo (.ofString path)) ∧
    (output = none → h.tree.isDir layout.reportsDir = true →
      writtenTo (layout.reportFile "latest-scan")) ∧
    (output = none → h.tree.isDir layout.reportsDir = false → h'.tree = h.tree) ∧
    AuditReport.codec.readJson text = .ok report ∧
    (json = true → h'.output = h.output ++ text ++ "\n") ∧
    ∃ p loaded, Project.ofRoot h.tree layout.root = .ok p ∧
      AnalysisUnits.loadGiven h.tree units = .ok loaded ∧
      report = (p.audit .standard h.tree loaded h.time).1.attest h.tree layout.root := by
  intro layout text writtenTo
  obtain ⟨p, loaded, log, hp, hu, hd⟩ := Command.deliver_of_scan hs
  obtain ⟨hlayout, -⟩ := Project.of_ofRoot hp
  obtain ⟨hunchanged, hdelivered, hprinted⟩ := Command.of_exec_deliver hd
  rw [hlayout] at hunchanged hdelivered
  have hwritten : ∀ file, Command.reportPath? h.tree layout output = some file → writtenTo file := by
    intro file hfile
    obtain ⟨place, hplace⟩ := hdelivered file hfile
    exact ⟨place, hplace, hplace.readText⟩
  have hcodec : AuditReport.codec.RoundTrips := Document.Codec.roundTrips _ (by decide) (by decide)
  refine ⟨?_, ?_, ?_, hcodec.readJson_pretty report, hprinted, p, loaded, hp, hu, ?_⟩
  · rintro path rfl
    exact hwritten _ rfl
  · rintro rfl hreports
    exact hwritten _ (by rw [Command.reportPath?, if_pos hreports]; rfl)
  · rintro rfl hreports
    refine hunchanged ?_
    rw [Command.reportPath?, if_neg (by rw [hreports]; simp)]
  · rw [Command.eq_of_deliver hd, hlayout]

/-- What is found from a node is open if all below the node is. -/
theorem Node.isClosed_of_get? {node m : Node} {place : List Name}
    (hbelow : node.EveryDir fun entries => ∀ e ∈ entries, e.2.isClosed = false)
    (hnode : node.isClosed = false) (hget : node.get? place = some m) : m.isClosed = false := by
  induction place generalizing node with
  | nil =>
    rw [Node.get?, Option.some.injEq] at hget
    rwa [← hget]
  | cons n place ih =>
    obtain ⟨entries, closed, below, rfl, hl, hget⟩ := dir_of_get?_cons hget
    obtain ⟨hentries, hbelow⟩ := everyDir_dir.mp hbelow
    have hmem := mem_of_lookup hl
    exact ih (hbelow _ hmem) (hentries _ hmem) hget

/-- A report on a native library that goes to a directory which is still to be made. -/
theorem scan_effects_library :
    let h := workHost (resources "libx.so" false)
    let file := Path.ofString "/w/out/report.json"
    ∃ report h', (Command.scan "." none true (some "/w/out/report.json")).exec h = (.ok report, h') ∧
      report.findings ≠ [] ∧
      h'.tree.readText file = .ok (AuditReport.codec.pretty report) ∧
      (∃ place, h.tree.Delivered h'.tree file (AuditReport.codec.pretty report) place) ∧
      AuditReport.codec.readJson (AuditReport.codec.pretty report) = .ok report ∧
      h'.output = h.output ++ AuditReport.codec.pretty report ++ "\n" := by
  intro h file
  have hlinks := linkless_resources "libx.so"
  have hholds : h.tree.Holds workPlace (resources "libx.so" false) false := holds_workHost hlinks
  have hp : Project.ofRoot h.tree (h.tree.resolveRoot ".") = .ok workProject :=
    ofRoot_workHost hlinks rfl
  have hu : AnalysisUnits.loadGiven h.tree none = .ok none := rfl
  have hdest : Command.reportPath? h.tree workProject.layout (some "/w/out/report.json") = some file :=
    rfl
  have hparent : file.parent? = some (FileTree.absolute (workPlace ++ [Name.ofString "out"])) :=
    @FileTree.parent?_absolute (workPlace ++ [Name.ofString "out"]) (Name.ofString "report.json")
      (by decide) (by decide)
  have hmake := hholds.makeDirAll_of_vacant (n := Name.ofString "out") (by decide) (by decide) rfl
  have hmade := hholds.put (Node.linkless_empty false) nofun
    (Node.put_singleton (resources "libx.so" false) false (Name.ofString "out") (.dir [] false))
  have hout : (Node.dir (Node.putEntry (Name.ofString "out") (.dir [] false)
      (resources "libx.so" false)) false).get? [Name.ofString "out"] = some (.dir [] false) := by
    rw [Node.get?_singleton, Node.lookup_putEntry, if_pos rfl]
  obtain ⟨h', hrun⟩ := Command.exec_scan_of_written hp hu hdest hparent (by decide) hmake
    (hmade.write_of_free (n := Name.ofString "report.json") (by decide) (by decide) hout nofun) true
  obtain ⟨hwritten, -, -, hread, hprinted, -⟩ := scan_effects _ _ _ _ h h' _ hrun
  obtain ⟨place, hplace, htext⟩ := hwritten _ rfl
  have hopen : wasClosed (h.tree.root.get? place) = false := by
    cases hm : h.tree.root.get? place with
    | none => rfl
    | some m =>
      refine Node.isClosed_of_get? ?_ rfl hm
      simp [h, workHost, resources, Node.EveryDir, everyDirAmong, Node.isClosed]
  have hflagged := @flagged_resources "libx.so" (by decide) (by decide)
  obtain ⟨f, hf, -⟩ := hflagged.exists_mem_attest rfl (node_workHost hlinks)
    (allowed_resources (by decide)) none h.time rfl workProject.layout.root
  exact ⟨_, h', hrun, List.ne_nil_of_mem hf, htext hopen, ⟨place, hplace⟩, hread, hprinted rfl⟩

end AndroidAudit
