import AndroidAudit.Proofs.CommandRuns
import AndroidAudit.Proofs.RoundTrip
import AndroidAudit.Proofs.TreeChanges

/-!
# The files that a project keeps for itself

A project keeps its settings and the reports on it in two directories below its root. `OwnChange` says
of a tree that it differs from another in these alone, and that the settings, if there are any, are
those of a project that has only a name. Setting a project up and auditing it keep this
(`OwnChange.keeps_initProject`, `OwnChange.keeps_scan`), and a project that can be loaded from such a
tree has the settings of some name (`OwnChange.of_ofRoot`).

On a project that keeps nothing of its own yet the commands succeed if its paths are short enough: it
is audited, set up and audited again (`exec_scan_of_unkept`, `exec_initProject_of_fresh`,
`exec_scan_of_kept`). `workHost` is such a project, with entries that can be chosen.
-/

namespace AndroidAudit

open Text (Symbol)

/-! ## Names -/

/-- The directory of the settings. -/
def metaName : Name := Name.ofString ".droidlint"

/-- The directory of the reports. -/
def reportsName : Name := Name.ofString "reports"

/-- The file of the settings. -/
def configName : Name := Name.ofString "project.json"

/-- The file of the report that is kept. -/
def latestName : Name := Name.ofString (Command.latestReport ++ ".json")

/-- Whether a name is not that of one of the two directories. -/
def isOther (n : Name) : Bool := n != metaName && n != reportsName

theorem allowed_metaName : metaName.Allowed := by decide

theorem allowed_reportsName : reportsName.Allowed := by decide

theorem allowed_config : ∀ n ∈ [metaName, configName], n.Allowed := by decide

theorem allowed_latest : ∀ n ∈ [reportsName, latestName], n.Allowed := by decide

/-- The settings of a project that has only a name, as they are written. -/
def plainConfig (name : String) : List UInt8 :=
  Text.encode (ProjectConfig.codec.pretty (.ofName name))

namespace ProjectLayout

variable {place : List Name}

theorem metaDir_absolute (h : ∀ n ∈ place, n.Plain) :
    metaDir ⟨FileTree.absolute place⟩ = FileTree.absolute (place ++ [metaName]) := by
  rw [FileTree.absolute_append h (by decide)]
  rfl

theorem reportsDir_absolute (h : ∀ n ∈ place, n.Plain) :
    reportsDir ⟨FileTree.absolute place⟩ = FileTree.absolute (place ++ [reportsName]) := by
  rw [FileTree.absolute_append h (by decide)]
  rfl

theorem configFile_absolute (h : ∀ n ∈ place, n.Plain) :
    configFile ⟨FileTree.absolute place⟩ = FileTree.absolute (place ++ [metaName, configName]) := by
  rw [FileTree.absolute_append h (by decide)]
  rfl

theorem reportFile_absolute (h : ∀ n ∈ place, n.Plain) :
    reportFile ⟨FileTree.absolute place⟩ Command.latestReport =
      FileTree.absolute (place ++ [reportsName, latestName]) := by
  rw [FileTree.absolute_append h (by decide)]
  rfl

theorem parent?_reportFile (h : ∀ n ∈ place, n.Plain) :
    (FileTree.absolute (place ++ [reportsName, latestName])).parent? =
      some (FileTree.absolute (place ++ [reportsName])) := by
  rw [List.append_cons]
  exact FileTree.parent?_absolute (List.forall_mem_append.mpr ⟨h, by decide⟩) (by decide)

end ProjectLayout

/-! ## Settings -/

theorem ProjectConfig.flaw?_ofName (name : String) : (ofName name).flaw? = none := rfl

theorem readJson_plainConfig (name : String) :
    ∃ text, Text.decode? (plainConfig name) = some text ∧
      ProjectConfig.codec.readJson text = .ok (.ofName name) := by
  have hcodec : ProjectConfig.codec.RoundTrips := Document.Codec.roundTrips _ (by decide) (by decide)
  exact ⟨_, Text.decode?_encode _, hcodec.readJson_pretty _⟩

theorem ProjectLayout.loadConfigOrDefault_of_error {l : ProjectLayout} {t : FileTree} {e : SysError}
    (he : t.readText l.configFile = .error e) :
    l.loadConfigOrDefault t =
      if e = .notFound then .ok (.ofName (inferredName l.root))
      else .error (.unreadable l.configFile e) := by
  rw [loadConfigOrDefault, loadConfig, he]
  cases e <;> rfl

theorem ProjectLayout.loadConfigOrDefault_of_plainConfig {l : ProjectLayout} {t : FileTree}
    {name : String} (hread : t.read l.configFile = .ok (plainConfig name)) :
    l.loadConfigOrDefault t = .ok (.ofName name) := by
  obtain ⟨text, hdecode, hjson⟩ := readJson_plainConfig name
  rw [loadConfigOrDefault, loadConfig, FileTree.readText, hread]
  simp only [hdecode, hjson, ProjectConfig.flaw?_ofName]

/-! ## Trees that differ in the own files -/

/-- A tree that differs from `t₀`, which has the project at a place, in the project's own files alone. -/
structure OwnChange (t₀ : FileTree) (place : List Name) (entries₀ : List (Name × Node)) (t : FileTree)
    (entries : List (Name × Node)) (closed : Bool) : Prop where
  holds : t.Holds place entries closed
  cwd : t.cwd = t₀.cwd
  /-- Nothing goes away, so the root is found as it was. -/
  grown : t₀.root.Grown t.root
  others : entries.filter (isOther ·.1) = entries₀.filter (isOther ·.1)
  /-- The settings are not there, or are those of a name. -/
  config : ∀ node, (Node.dir entries closed).get? [metaName, configName] = some node →
    ∃ name, node = .file (plainConfig name) false

namespace FileTree

/-- The root of a project that is there is the path of its place. -/
theorem resolveRoot_of_spot {t : FileTree} {root : String} {place : List Name} {node : Node}
    (h : t.spot .target (.ofString root) = .ok (.taken place node)) :
    t.resolveRoot root = absolute place := by
  rw [resolveRoot, canonical?, h]
  rfl

theorem Holds.put {t : FileTree} {place names : List Name} {entries entries' : List (Name × Node)}
    {closed : Bool} {new : Node} (h : t.Holds place entries closed) (hnew : new.Linkless)
    (hlink : ∀ target, new ≠ .link target)
    (hput : (Node.dir entries closed).put names new = .dir entries' closed) :
    (t.put (place ++ names) new).Holds place entries' closed where
  get? := by
    have hget := Node.get?_put h.get? ((Node.dir entries closed).put names new) []
    rw [List.append_nil, ← Node.put_append h.get?, hput] at hget
    exact hget
  allowed := h.allowed
  linkless := hput ▸ h.linkless.put hnew hlink names

end FileTree

theorem Node.linkless_file (bytes : List UInt8) (closed : Bool) : (Node.file bytes closed).Linkless :=
  trivial

theorem Node.linkless_empty (closed : Bool) : (Node.dir [] closed).Linkless :=
  everyDir_dir.mpr ⟨nofun, nofun⟩

/-- A file that is written over stays one. -/
theorem Node.grown_file {old : Node} {bytes : List UInt8} {closed : Bool} (h : old.isFile = true)
    (hclosed : old.isClosed = closed) : old.Grown (.file bytes closed) := by
  cases old with
  | dir entries closed => cases h
  | link target => cases h
  | file before closed' =>
    rintro (_ | ⟨n, rest⟩) m hm
    · cases hm
      exact ⟨_, rfl, congrArg (Node.file []) hclosed⟩
    · cases hm

namespace OwnChange

variable {t₀ t : FileTree} {place : List Name} {entries₀ entries : List (Name × Node)} {closed : Bool}

theorem refl (h : t.Holds place entries closed)
    (hfresh : (Node.dir entries closed).get? [metaName, configName] = none) :
    OwnChange t place entries t entries closed where
  holds := h
  cwd := rfl
  grown := .refl _
  others := rfl
  config node hnode := by
    rw [hfresh] at hnode
    cases hnode

/-- What is put below one of the two directories is such a change, if nothing goes away by it and the
settings stay in order. -/
theorem put (h : OwnChange t₀ place entries₀ t entries closed) {n : Name} (hn : isOther n = false)
    {rest : List Name} {new : Node} (hnew : new.Linkless) (hlink : ∀ target, new ≠ .link target)
    (hgrown : ∀ m, (Node.dir entries closed).get? (n :: rest) = some m → m.Grown new)
    (hconfig : ∀ node, ((Node.dir entries closed).put (n :: rest) new).get? [metaName, configName] =
      some node → ∃ name, node = .file (plainConfig name) false) :
    ∃ entries', OwnChange t₀ place entries₀ (t.put (place ++ n :: rest) new) entries' closed := by
  obtain ⟨entries', hput, -, hothers⟩ := Node.put_dir entries closed n rest new
  refine ⟨entries', h.holds.put hnew hlink hput, h.cwd, h.grown.trans (.put fun m hm => ?_), ?_, ?_⟩
  · rw [Node.get?_append, h.holds.get?, Option.bind_some] at hm
    exact hgrown m hm
  · rw [← h.others]
    exact hothers isOther hn
  · rwa [← hput]

/-- What is put below the directory of reports leaves the settings alone. -/
theorem config_of_put_reports (h : OwnChange t₀ place entries₀ t entries closed) (rest : List Name)
    (new : Node) :
    ∀ node, ((Node.dir entries closed).put (reportsName :: rest) new).get? [metaName, configName] =
      some node → ∃ name, node = .file (plainConfig name) false := by
  obtain ⟨entries', hput, hlookup, -⟩ := Node.put_dir entries closed reportsName rest new
  intro node hnode
  refine h.config node ?_
  rwa [hput, Node.get?_cons, hlookup metaName (by decide), ← Node.get?_cons] at hnode

/-- An own directory that is made is such a change. -/
theorem makeDirAll (h : OwnChange t₀ place entries₀ t entries closed) {n : Name} (hn : isOther n = false)
    (hallowed : n.Allowed) :
    ∃ entries', OwnChange t₀ place entries₀
      (t.makeDirAll (FileTree.absolute (place ++ [n]))).2 entries' closed := by
  rcases h.holds.makeDirAll_cases hallowed with hsame | ⟨hvacant, hmade⟩
  · exact ⟨entries, by rwa [hsame]⟩
  · rw [hmade]
    refine h.put hn (Node.linkless_empty false) nofun (fun m hm => ?_) (fun node hnode => ?_)
    · rw [Node.get?_singleton, hvacant] at hm
      cases hm
    · rw [Node.put_singleton, Node.get?_cons, Node.lookup_putEntry] at hnode
      split_ifs at hnode
      · cases hnode
      · exact h.config node (by rwa [Node.get?_cons])

/-- A file that is written into one of the two directories is such a change if the settings stay in
order. -/
theorem write (h : OwnChange t₀ place entries₀ t entries closed) {n m : Name} (hn : isOther n = false)
    (hallowed : ∀ k ∈ [n, m], k.Allowed) {bytes : List UInt8} {t' : FileTree}
    (hconfig : n = metaName → m = configName ∧ ∃ name, bytes = plainConfig name)
    (hw : t.write (FileTree.absolute (place ++ [n, m])) bytes = .ok t') :
    ∃ entries', OwnChange t₀ place entries₀ t' entries' closed := by
  obtain ⟨mid, k, es, closed', hnames, hmid, hfree, rfl⟩ := h.holds.write_cases
    (fun k hk => (hallowed k hk).toPlain) (fun k hk => (hallowed k hk).no_nul) hw
  obtain ⟨rfl, rfl⟩ : mid = [n] ∧ k = m := by
    have hsplit : [n] ++ [m] = mid ++ [k] := hnames
    obtain ⟨h₁, h₂⟩ := List.append_inj' hsplit rfl
    exact ⟨h₁.symm, (List.cons.inj h₂).1.symm⟩
  refine h.put hn (Node.linkless_file bytes _) nofun (fun old hold => ?_) ?_
  · have hl : es.lookup k = some old := by
      rw [← Node.get?_concat hmid]
      exact hold
    exact Node.grown_file (hfree old hl) (by rw [hl]; rfl)
  · by_cases hmeta : n = metaName
    · subst hmeta
      obtain ⟨rfl, name, hbytes⟩ := hconfig rfl
      subst hbytes
      -- settings that are written over were not closed
      have hopen : wasClosed (es.lookup configName) = false := by
        cases hl : es.lookup configName with
        | none => rfl
        | some old =>
          obtain ⟨name', rfl⟩ := h.config old (by rw [← hl, ← Node.get?_concat hmid]; rfl)
          rfl
      intro node hnode
      have hself := Node.get?_put_concat hmid configName (.file (plainConfig name) false)
      rw [hopen] at hnode
      rw [List.singleton_append, hnode, Option.some.injEq] at hself
      exact ⟨name, hself⟩
    · obtain rfl : n = reportsName := by simpa [isOther, hmeta] using hn
      exact h.config_of_put_reports _ _

/-! ## Commands -/

section

variable {root : String}
  (hroot : t₀.spot .target (.ofString root) = .ok (.taken place (.dir entries₀ closed)))
include hroot

/-- The root is found at its place. -/
theorem resolveRoot (h : OwnChange t₀ place entries₀ t entries closed) :
    t.resolveRoot root = FileTree.absolute place := by
  obtain ⟨entries', hspot⟩ := FileTree.spot_of_grown h.cwd h.grown hroot
  exact FileTree.resolveRoot_of_spot hspot

omit hroot in
theorem keeps_makeDirAll {n : Name} (hn : isOther n = false) (hallowed : n.Allowed) (doing : String) :
    Command.Keeps (fun t => ∃ entries, OwnChange t₀ place entries₀ t entries closed)
      (Command.makeDirAll doing (FileTree.absolute (place ++ [n]))) := by
  refine .makeDirAll ?_
  rintro t ⟨entries, h⟩
  exact h.makeDirAll hn hallowed

omit hroot in
theorem keeps_writeFile {n m : Name} (hn : isOther n = false) (hallowed : ∀ k ∈ [n, m], k.Allowed)
    {text : String} (hconfig : n = metaName → m = configName ∧ ∃ name, Text.encode text = plainConfig name)
    (doing : String) :
    Command.Keeps (fun t => ∃ entries, OwnChange t₀ place entries₀ t entries closed)
      (Command.writeFile doing (FileTree.absolute (place ++ [n, m])) text) := by
  refine .writeFile ?_
  rintro t t' ⟨entries, h⟩ hw
  exact h.write hn hallowed hconfig hw

/-- Setting a project up changes nothing but its own files. -/
theorem keeps_initProject (name : Option String) :
    Command.Keeps (fun t => ∃ entries, OwnChange t₀ place entries₀ t entries closed)
      (Command.initProject root name) := by
  refine .files_bind ?_
  rintro t ⟨entries, h⟩
  simp only [h.resolveRoot hroot, ProjectLayout.metaDir_absolute h.holds.plain,
    ProjectLayout.reportsDir_absolute h.holds.plain, ProjectLayout.configFile_absolute h.holds.plain]
  refine .bind (keeps_makeDirAll rfl allowed_metaName _) fun _ => ?_
  refine .bind (keeps_makeDirAll rfl allowed_reportsName _) fun _ => ?_
  refine .bind (keeps_writeFile rfl allowed_config (fun _ => ⟨rfl, _, rfl⟩) _) fun _ => ?_
  exact .bind (.printLine _) fun _ => .bind (.printLine _) fun _ => .bind (.printLine _) fun _ =>
    .bind (.printLine _) fun _ => .printLine _

omit hroot in
/-- Writing the report that is kept changes nothing but the own files. -/
theorem keeps_writeReport (hplace : ∀ n ∈ place, n.Plain) (report : AuditReport) :
    Command.Keeps (fun t => ∃ entries, OwnChange t₀ place entries₀ t entries closed)
      (Command.writeReport (FileTree.absolute (place ++ [reportsName, latestName])) report) := by
  rw [Command.writeReport, ProjectLayout.parent?_reportFile hplace]
  refine .bind (keeps_makeDirAll rfl allowed_reportsName _) fun _ => ?_
  exact .bind (keeps_writeFile rfl allowed_latest (fun e => absurd e (by decide)) _) fun _ => .log _

/-- An audit changes nothing but the own files. -/
theorem keeps_scan (json : Bool) :
    Command.Keeps (fun t => ∃ entries, OwnChange t₀ place entries₀ t entries closed)
      (Command.scan root none json none) := by
  refine .scan ?_
  rintro t p file report ⟨entries, h⟩ hp hfile
  obtain ⟨hlayout, -⟩ := Project.of_ofRoot hp
  rw [h.resolveRoot hroot] at hlayout
  rw [hlayout, Command.reportPath?] at hfile
  split_ifs at hfile
  rw [ProjectLayout.reportFile_absolute h.holds.plain, Option.some.injEq] at hfile
  rw [← hfile]
  exact keeps_writeReport h.holds.plain report

end

/-- A project that can be loaded has the settings of a name, and the host takes the path of its
settings. -/
theorem of_ofRoot (h : OwnChange t₀ place entries₀ t entries closed) {p : Project}
    (hp : Project.ofRoot t (FileTree.absolute place) = .ok p) :
    p.layout = ⟨FileTree.absolute place⟩ ∧ (∃ name, p.config = .ofName name) ∧
      FileTree.byteCount (FileTree.absolute (place ++ [metaName, configName])).symbols ≤ maxPathBytes := by
  obtain ⟨hlayout, hload⟩ := Project.of_ofRoot hp
  refine ⟨hlayout, ?_⟩
  have hpath := ProjectLayout.configFile_absolute h.holds.plain
  have hspot := @FileTree.Holds.spot_absolute t place [metaName, configName] entries closed .target h.holds
    (fun n hn => (allowed_config n hn).toPlain) fun n hn => (allowed_config n hn).no_nul
  rw [← hpath] at hspot ⊢
  have hfails {e : SysError}
      (he : t.readText (ProjectLayout.configFile ⟨FileTree.absolute place⟩) = .error e) :
      e = .notFound ∧ ∃ name, p.config = .ofName name := by
    rw [ProjectLayout.loadConfigOrDefault_of_error he] at hload
    split_ifs at hload with hmissing
    exact ⟨hmissing, _, (Except.ok.inj hload).symm⟩
  split_ifs at hspot with hlong
  · have hread : t.readText (ProjectLayout.configFile ⟨FileTree.absolute place⟩) = .error .nameTooLong := by
      rw [FileTree.readText, FileTree.read, FileTree.node, hspot]
    exact absurd (hfails hread).1 (by decide)
  refine ⟨?_, Nat.not_lt.mp hlong⟩
  cases hget : (Node.dir entries closed).get? [metaName, configName] with
  | some node =>
    obtain ⟨name, rfl⟩ := h.config node hget
    rw [Node.reach_of_get? allowed_config hget] at hspot
    have hread : t.read (ProjectLayout.configFile ⟨FileTree.absolute place⟩) = .ok (plainConfig name) := by
      rw [FileTree.read, FileTree.node, hspot]
    rw [ProjectLayout.loadConfigOrDefault_of_plainConfig hread] at hload
    exact ⟨name, (Except.ok.inj hload).symm⟩
  | none =>
    -- nothing is there to be read
    have hread : ∃ e, t.readText (ProjectLayout.configFile ⟨FileTree.absolute place⟩) = .error e := by
      rw [FileTree.readText, FileTree.read, FileTree.node, hspot]
      cases hreach : (Node.dir entries closed).reach place [metaName, configName] with
      | error e => exact ⟨e, rfl⟩
      | ok found =>
        cases found with
        | vacant dir name => exact ⟨.notFound, rfl⟩
        | taken place' node =>
          rw [(Node.get?_of_reach hreach).2] at hget
          cases hget
    obtain ⟨e, he⟩ := hread
    exact (hfails he).2

end OwnChange

/-! ## Fresh projects -/

namespace FileTree.Holds

variable {t : FileTree} {place : List Name} {entries : List (Name × Node)} {closed : Bool}

/-- A project without the directory of the settings has no settings that could be read. -/
theorem readText_of_fresh (h : t.Holds place entries closed)
    (hshort : byteCount (absolute (place ++ [metaName, configName])).symbols ≤ maxPathBytes)
    (hl : entries.lookup metaName = none) :
    t.readText (ProjectLayout.configFile ⟨absolute place⟩) = .error .notFound := by
  have hspot := @spot_absolute t place [metaName, configName] entries closed .target h
    (fun n hn => (allowed_config n hn).toPlain) fun n hn => (allowed_config n hn).no_nul
  rw [if_neg (Nat.not_lt.mpr hshort), Node.reach, hl,
    ← ProjectLayout.configFile_absolute h.plain] at hspot
  rw [readText, read, node, hspot]
  rfl

/-- A project without settings has those of the name of its root. -/
theorem ofRoot_of_fresh (h : t.Holds place entries closed)
    (hshort : byteCount (absolute (place ++ [metaName, configName])).symbols ≤ maxPathBytes)
    (hl : entries.lookup metaName = none) :
    Project.ofRoot t (absolute place) =
      .ok ⟨⟨absolute place⟩, .ofName (ProjectLayout.inferredName (absolute place))⟩ := by
  rw [Project.ofRoot, ProjectLayout.loadConfigOrDefault_of_error (h.readText_of_fresh hshort hl)]
  rfl

/-- A project with the settings of a name has these. -/
theorem ofRoot_of_plainConfig (h : t.Holds place entries closed) {name : String}
    (hshort : byteCount (absolute (place ++ [metaName, configName])).symbols ≤ maxPathBytes)
    (hget : (Node.dir entries closed).get? [metaName, configName] =
      some (.file (plainConfig name) false)) :
    Project.ofRoot t (absolute place) = .ok ⟨⟨absolute place⟩, .ofName name⟩ := by
  have hspot := @spot_absolute t place [metaName, configName] entries closed .target h
    (fun n hn => (allowed_config n hn).toPlain) fun n hn => (allowed_config n hn).no_nul
  rw [if_neg (Nat.not_lt.mpr hshort), Node.reach_of_get? allowed_config hget,
    ← ProjectLayout.configFile_absolute h.plain] at hspot
  have hread : t.read (ProjectLayout.configFile ⟨absolute place⟩) = .ok (plainConfig name) := by
    rw [read, node, hspot]
  rw [Project.ofRoot, ProjectLayout.loadConfigOrDefault_of_plainConfig hread]
  rfl

theorem isDir_reports (h : t.Holds place entries closed)
    (hshort : byteCount (absolute (place ++ [reportsName])).symbols ≤ maxPathBytes) :
    t.isDir (ProjectLayout.reportsDir ⟨absolute place⟩) =
      ((entries.lookup reportsName).map Node.isDir).getD false := by
  rw [ProjectLayout.reportsDir_absolute h.plain, isDir, node, h.spot_absolute (by decide) (by decide),
    if_neg (Nat.not_lt.mpr hshort), Node.reach, if_neg (by decide)]
  cases entries.lookup reportsName <;> rfl

variable {root : String} {host : Host} {p : Project}

/-- An audit of a project that keeps no reports succeeds, and leaves the files as they are. -/
theorem exec_scan_of_unkept (h : host.tree.Holds place entries closed)
    (hroot : host.tree.resolveRoot root = absolute place)
    (hp : Project.ofRoot host.tree (absolute place) = .ok p)
    (hshort : byteCount (absolute (place ++ [reportsName])).symbols ≤ maxPathBytes)
    (hl : entries.lookup reportsName = none) (json : Bool) :
    ∃ host' : Host, host'.tree = host.tree ∧ (Command.scan root none json none).exec host =
      (.ok ((p.audit .standard host.tree none host.time).1.attest host.tree (absolute place)), host') := by
  obtain ⟨hlayout, -⟩ := Project.of_ofRoot hp
  obtain ⟨log, hrun⟩ := @Command.exec_scan_of_loaded root none json none host p none (hroot ▸ hp) rfl
  have hdest : Command.reportPath? host.tree p.layout none = none := by
    rw [Command.reportPath?, hlayout, h.isDir_reports hshort, hl]
    rfl
  rw [hdest, hlayout] at hrun
  obtain ⟨output, hdeliver⟩ := Command.exec_deliver_none json
    ((p.audit .standard host.tree none host.time).1.attest host.tree (absolute place))
    { host with log := log }
  exact ⟨{ host with log := log, output := output }, rfl, hrun.trans hdeliver⟩

/-- An audit of a project that keeps reports succeeds if the report can be put there. -/
theorem exec_scan_of_kept (h : host.tree.Holds place entries closed)
    (hroot : host.tree.resolveRoot root = absolute place)
    (hp : Project.ofRoot host.tree (absolute place) = .ok p)
    (hshort : byteCount (absolute (place ++ [reportsName, latestName])).symbols ≤ maxPathBytes)
    {es : List (Name × Node)} {closed' : Bool} (hl : entries.lookup reportsName = some (.dir es closed'))
    (hfree : ∀ below, es.lookup latestName = some below → below.isFile = true) (json : Bool) :
    ∃ host' : Host, (Command.scan root none json none).exec host =
      (.ok ((p.audit .standard host.tree none host.time).1.attest host.tree (absolute place)), host') := by
  obtain ⟨hlayout, -⟩ := Project.of_ofRoot hp
  have hplain : ∀ n ∈ place ++ [reportsName], n.Plain :=
    List.forall_mem_append.mpr ⟨h.plain, by decide⟩
  have hshortDir : byteCount (absolute (place ++ [reportsName])).symbols ≤ maxPathBytes := by
    rw [List.append_cons] at hshort
    exact Nat.le_trans (byteCount_absolute_append hplain (by decide)) hshort
  have hdest : Command.reportPath? host.tree p.layout none =
      some (absolute (place ++ [reportsName, latestName])) := by
    rw [Command.reportPath?, hlayout, h.isDir_reports hshortDir, hl,
      ProjectLayout.reportFile_absolute h.plain]
    rfl
  have hmid : (Node.dir entries closed).get? [reportsName] = some (.dir es closed') := by
    rw [Node.get?_singleton, hl]
  have hwrite := @write_of_free _ _ [reportsName] _ _ _ _ latestName (Text.encode (AuditReport.codec.pretty
    ((p.audit .standard host.tree none host.time).1.attest host.tree p.layout.root)))
    h allowed_latest hshort hmid hfree
  have hnone : AnalysisUnits.loadGiven host.tree none = .ok none := rfl
  have hrun := Command.exec_scan_of_written (hroot ▸ hp) hnone hdest
    (ProjectLayout.parent?_reportFile h.plain) (by simp [absolute, Path.spell])
    (h.makeDirAll_of_taken allowed_reportsName hshortDir hl) hwrite json
  rwa [hlayout] at hrun

/-- A project that keeps nothing of its own is set up with the settings of a name and no reports. -/
theorem exec_initProject_of_fresh (h : host.tree.Holds place entries closed)
    (hroot : host.tree.resolveRoot root = absolute place)
    (hshort : byteCount (absolute (place ++ [metaName, configName])).symbols ≤ maxPathBytes)
    (hshort' : byteCount (absolute (place ++ [reportsName])).symbols ≤ maxPathBytes)
    (hmeta : entries.lookup metaName = none) (hreports : entries.lookup reportsName = none)
    (name : Option String) :
    ∃ host' entries', (Command.initProject root name).exec host = (.ok (), host') ∧
      host'.tree.Holds place entries' closed ∧ entries'.lookup reportsName = some (.dir [] false) ∧
      (Node.dir entries' closed).get? [metaName, configName] =
        some (.file (plainConfig (name.getD (ProjectLayout.inferredName (absolute place)))) false) := by
  have hplain : ∀ n ∈ place ++ [metaName], n.Plain := List.forall_mem_append.mpr ⟨h.plain, by decide⟩
  have hshortDir : byteCount (absolute (place ++ [metaName])).symbols ≤ maxPathBytes := by
    rw [List.append_cons] at hshort
    exact Nat.le_trans (byteCount_absolute_append hplain (by decide)) hshort
  -- the directory of the settings, that of the reports, and the settings
  have h₁ := h.put (Node.linkless_empty false) nofun
    (Node.put_singleton entries closed metaName (.dir [] false))
  have hreports₁ : (Node.putEntry metaName (.dir [] false) entries).lookup reportsName = none := by
    rw [Node.lookup_putEntry, if_neg (by decide), hreports]
  have h₂ := h₁.put (Node.linkless_empty false) nofun
    (Node.put_singleton _ closed reportsName (.dir [] false))
  have hmeta₂ : (Node.dir (Node.putEntry reportsName (.dir [] false)
      (Node.putEntry metaName (.dir [] false) entries)) closed).get? [metaName] =
        some (.dir [] false) := by
    rw [Node.get?_singleton, Node.lookup_putEntry, if_neg (by decide), Node.lookup_putEntry, if_pos rfl]
  obtain ⟨entries', hput, hother, -⟩ := Node.put_dir (Node.putEntry reportsName (.dir [] false)
    (Node.putEntry metaName (.dir [] false) entries)) closed metaName [configName]
    (.file (plainConfig (name.getD (ProjectLayout.inferredName (absolute place)))) false)
  have h₃ := h₂.put (Node.linkless_file _ _) nofun hput
  have hwrite := @write_of_free _ _ [metaName] _ _ _ _ configName
    (plainConfig (name.getD (ProjectLayout.inferredName (absolute place)))) h₂ allowed_config hshort
    hmeta₂ nofun
  have hmake := h.makeDirAll_of_vacant allowed_metaName hshortDir hmeta
  have hmake₁ := h₁.makeDirAll_of_vacant allowed_reportsName hshort' hreports₁
  rw [← ProjectLayout.metaDir_absolute h.plain] at hmake
  rw [← ProjectLayout.reportsDir_absolute h.plain] at hmake₁
  rw [List.singleton_append, ← ProjectLayout.configFile_absolute h.plain] at hwrite
  obtain ⟨output, hrun⟩ := Command.exec_initProject_of_ok hroot hmake hmake₁ hwrite
  refine ⟨_, entries', hrun, h₃, ?_, ?_⟩
  · rw [hother reportsName (by decide), Node.lookup_putEntry, if_pos rfl]
  · have hself := Node.get?_put_concat hmeta₂ configName
      (.file (plainConfig (name.getD (ProjectLayout.inferredName (absolute place)))) false)
    rwa [List.singleton_append, hput] at hself

end FileTree.Holds

/-! ## A project in the current directory -/

/-- The directory `w`. -/
def workPlace : List Name := [Name.ofString "w"]

/-- A host whose current directory is `w` and holds some entries. -/
def workHost (entries : List (Name × Node)) : Host :=
  ⟨⟨.dir [(Name.ofString "w", .dir entries false)] false, workPlace⟩, "", "", []⟩

/-- The project in `w` before it is set up. -/
def workProject : Project := ⟨⟨FileTree.absolute workPlace⟩, .ofName "w"⟩

section

variable {entries : List (Name × Node)}

theorem short_work : ∀ names ∈ [[], [metaName, configName], [reportsName], [reportsName, latestName]],
    FileTree.byteCount (FileTree.absolute (workPlace ++ names)).symbols ≤ maxPathBytes := by decide

theorem get?_workHost (entries : List (Name × Node)) :
    (workHost entries).tree.root.get? workPlace = some (.dir entries false) := by
  simp [workHost, workPlace, Node.get?, Node.child?]

theorem spot_workHost (entries : List (Name × Node)) :
    (workHost entries).tree.spot .target (.ofString ".") =
      .ok (.taken workPlace (.dir entries false)) :=
  @FileTree.spot_dots (workHost entries).tree .target entries false (get?_workHost entries) 0 (by decide)

theorem holds_workHost (hlinks : (Node.dir entries false).Linkless) :
    (workHost entries).tree.Holds workPlace entries false :=
  ⟨get?_workHost entries, by decide, hlinks⟩

theorem allowed_workHost (h : (Node.dir entries false).Allowed) : (workHost entries).tree.root.Allowed := by
  have hname : (Name.ofString "w").Allowed := by decide
  exact Node.everyDir_dir.mpr ⟨⟨List.nodup_singleton _, List.forall_mem_singleton.mpr hname⟩,
    List.forall_mem_singleton.mpr h⟩

theorem ofRoot_workHost (hlinks : (Node.dir entries false).Linkless)
    (hmeta : entries.lookup metaName = none) :
    Project.ofRoot (workHost entries).tree ((workHost entries).tree.resolveRoot ".") = .ok workProject := by
  rw [FileTree.resolveRoot_of_spot (spot_workHost entries)]
  exact (holds_workHost hlinks).ofRoot_of_fresh (short_work _ (by simp)) hmeta

end

end AndroidAudit
