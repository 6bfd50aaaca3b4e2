import AndroidAudit.Proofs.OwnFiles

/-!
# Which settings a project is loaded with

A project is loaded with the settings in its settings file, or with those of its name if there is no such
file, and with no others: `ofRoot_outcomes` tells what loading comes to on every tree, be it a project or
an error.

Settings are refused for their version or for an issue that they name and that does not exist
(`ProjectConfig.FirstFlaw`). Names are kept in rising order, so the first of them that is unknown is the
least (`find?_unknown_eq_some_iff`).
-/

namespace AndroidAudit

/-! ## Settings that are refused -/

/-- The name of an issue in the catalogue. -/
def Issue.Known (id : String) : Prop := ∃ i ∈ Issue.catalogue, i.id = id

theorem Issue.isNone_find?_iff {id : String} : (Issue.find? id).isNone = true ↔ ¬ Issue.Known id := by
  simp [Issue.find?, Issue.Known, List.find?_eq_none]

/-- The least of those among some names that are of no issue. -/
structure LeastUnknown (ids : List String) (id : String) : Prop where
  mem : id ∈ ids
  unknown : ¬ Issue.Known id
  least : ∀ other ∈ ids, ¬ Issue.Known other → id ≤ other

theorem LeastUnknown.unique {ids : List String} {a b : String} (ha : LeastUnknown ids a)
    (hb : LeastUnknown ids b) : a = b :=
  String.le_antisymm (ha.least b hb.mem hb.unknown) (hb.least a ha.mem ha.unknown)

section

variable {ids : List String}

theorem find?_unknown_eq_none_iff :
    (ids.find? fun id => (Issue.find? id).isNone) = none ↔ ∀ id ∈ ids, Issue.Known id := by
  simp only [List.find?_eq_none, Issue.isNone_find?_iff, not_not]

/-- Among names that rise, the first that is unknown is the least. -/
theorem leastUnknown_of_find? (hsorted : ids.Pairwise (· < ·)) {id : String}
    (hfind : (ids.find? fun id => (Issue.find? id).isNone) = some id) : LeastUnknown ids id := by
  obtain ⟨hunknown, before, after, rfl, hbefore⟩ := List.find?_eq_some_iff_append.mp hfind
  refine ⟨List.mem_append_right _ List.mem_cons_self, Issue.isNone_find?_iff.mp hunknown, ?_⟩
  intro other hother hnot
  rcases List.mem_append.mp hother with hmem | hmem
  · have hknown := hbefore other hmem
    rw [Issue.isNone_find?_iff.mpr hnot] at hknown
    cases hknown
  · rcases List.mem_cons.mp hmem with rfl | hmem
    · exact String.le_refl _
    · have hrest := (List.pairwise_append.mp hsorted).2.1
      exact String.not_lt.mp (String.lt_asymm ((List.pairwise_cons.mp hrest).1 other hmem))

theorem find?_unknown_eq_some_iff (hsorted : ids.Pairwise (· < ·)) {id : String} :
    (ids.find? fun id => (Issue.find? id).isNone) = some id ↔ LeastUnknown ids id := by
  refine ⟨leastUnknown_of_find? hsorted, fun hleast => ?_⟩
  cases hfind : ids.find? fun id => (Issue.find? id).isNone with
  | none => exact absurd (find?_unknown_eq_none_iff.mp hfind id hleast.mem) hleast.unknown
  | some first => rw [(leastUnknown_of_find? hsorted hfind).unique hleast]

end

namespace ProjectConfig

variable {c : ProjectConfig}

/-- Settings that a project may have. -/
structure Valid (c : ProjectConfig) : Prop where
  version : c.configVersion ∈ supportedVersions
  disabled : ∀ id ∈ c.disabledIssues.names, Issue.Known id
  overrides : ∀ id ∈ c.severityOverrides.names, Issue.Known id

/-- What settings are refused for: their version before any issue, and disabled issues before those with
a severity. -/
inductive FirstFlaw (c : ProjectConfig) : ConfigFlaw → Prop where
  | version : c.configVersion ∉ supportedVersions →
      FirstFlaw c (.unsupportedVersion c.configVersion)
  | disabled {id : String} : c.configVersion ∈ supportedVersions →
      LeastUnknown c.disabledIssues.names id → FirstFlaw c (.unknownIssue id)
  | override {id : String} : c.configVersion ∈ supportedVersions →
      (∀ id ∈ c.disabledIssues.names, Issue.Known id) →
      LeastUnknown c.severityOverrides.names id → FirstFlaw c (.unknownIssue id)

theorem pairwise_names {α : Type} (m : NameMap α) : m.names.Pairwise (· < ·) :=
  List.pairwise_map.mpr m.sorted

theorem flaw?_of_supported (h : c.configVersion ∈ supportedVersions) :
    c.flaw? = ((c.disabledIssues.names.find? fun id => (Issue.find? id).isNone).or
      (c.severityOverrides.names.find? fun id => (Issue.find? id).isNone)).map .unknownIssue := by
  rw [flaw?, if_pos (List.contains_iff_mem.mpr h), namedIssues, List.find?_append]

theorem flaw?_eq_none_iff : c.flaw? = none ↔ c.Valid := by
  by_cases hversion : c.configVersion ∈ supportedVersions
  · rw [flaw?_of_supported hversion, Option.map_eq_none_iff, Option.or_eq_none_iff,
      find?_unknown_eq_none_iff, find?_unknown_eq_none_iff]
    exact ⟨fun h => ⟨hversion, h.1, h.2⟩, fun h => ⟨h.disabled, h.overrides⟩⟩
  · rw [flaw?, if_neg (mt List.contains_iff_mem.mp hversion)]
    constructor
    · intro h
      cases h
    · intro h
      exact absurd h.version hversion

theorem flaw?_eq_some_iff {flaw : ConfigFlaw} : c.flaw? = some flaw ↔ c.FirstFlaw flaw := by
  by_cases hversion : c.configVersion ∈ supportedVersions
  · rw [flaw?_of_supported hversion, Option.map_eq_some_iff]
    simp only [Option.or_eq_some_iff, find?_unknown_eq_none_iff,
      find?_unknown_eq_some_iff c.disabledIssues.sorted,
      find?_unknown_eq_some_iff (pairwise_names c.severityOverrides)]
    constructor
    · rintro ⟨id, hleast | ⟨hknown, hleast⟩, rfl⟩
      · exact .disabled hversion hleast
      · exact .override hversion hknown hleast
    · intro hflaw
      cases hflaw with
      | version h => exact absurd hversion h
      | disabled _ hleast => exact ⟨_, .inl hleast, rfl⟩
      | override _ hknown hleast => exact ⟨_, .inr ⟨hknown, hleast⟩, rfl⟩
  · rw [flaw?, if_neg (mt List.contains_iff_mem.mp hversion), Option.some.injEq]
    constructor
    · rintro rfl
      exact .version hversion
    · intro hflaw
      cases hflaw with
      | version _ => rfl
      | disabled h _ => exact absurd h hversion
      | override h _ _ => exact absurd h hversion

-- of two unknown issues that are disabled the lesser is named, and none that has a severity
example : { ofName "p" with
    disabledIssues := .ofList ["Stale", "InsecureTLS", "Old"]
    severityOverrides := .ofList [("Aged", .error)] }.flaw? = some (.unknownIssue "Old") := by
  decide +kernel

end ProjectConfig

/-! ## Projects -/

/-- A path leads to a file that holds a text as UTF-8. -/
def FileTree.HoldsText (t : FileTree) (p : Path) (text : String) : Prop :=
  ∃ bytes, t.read p = .ok bytes ∧ Text.decode? bytes = some text

theorem FileTree.readText_eq_ok_iff {t : FileTree} {p : Path} {text : String} :
    t.readText p = .ok text ↔ t.HoldsText p text := by
  rw [readText, HoldsText]
  cases t.read p with
  | error e => simp
  | ok bytes => cases hdecode : Text.decode? bytes <;> simp [hdecode]

/-- What loading the project at a root comes to, told from its settings file. -/
inductive Loading (t : FileTree) (root : Path) : Except ProjectError Project → Prop where
  /-- There is no such file, and the name of the project decides. -/
  | missing : t.read (ProjectLayout.configFile ⟨root⟩) = .error .notFound →
      Loading t root (.ok ⟨⟨root⟩, .ofName (ProjectLayout.inferredName root)⟩)
  /-- The file holds settings that a project may have. -/
  | valid {text : String} {config : ProjectConfig} :
      t.HoldsText (ProjectLayout.configFile ⟨root⟩) text →
      ProjectConfig.codec.readJson text = .ok config → config.Valid →
      Loading t root (.ok ⟨⟨root⟩, config⟩)
  /-- The file cannot be read. -/
  | unreadable {e : SysError} : t.read (ProjectLayout.configFile ⟨root⟩) = .error e → e ≠ .notFound →
      Loading t root (.error (.unreadable (ProjectLayout.configFile ⟨root⟩) e))
  /-- The file holds no text. -/
  | notText {bytes : List UInt8} : t.read (ProjectLayout.configFile ⟨root⟩) = .ok bytes →
      Text.decode? bytes = none →
      Loading t root (.error (.unreadable (ProjectLayout.configFile ⟨root⟩) .notText))
  /-- The text is that of no settings. -/
  | malformed {text : String} {e : Document.JsonError} :
      t.HoldsText (ProjectLayout.configFile ⟨root⟩) text →
      ProjectConfig.codec.readJson text = .error e →
      Loading t root (.error (.malformed (ProjectLayout.configFile ⟨root⟩) e))
  /-- The settings are refused. -/
  | refused {text : String} {config : ProjectConfig} {flaw : ConfigFlaw} :
      t.HoldsText (ProjectLayout.configFile ⟨root⟩) text →
      ProjectConfig.codec.readJson text = .ok config → config.FirstFlaw flaw →
      Loading t root (.error (.refused flaw))

section

variable {t : FileTree} {root : Path}

theorem ofRoot_of_error {e : SysError}
    (hread : t.readText (ProjectLayout.configFile ⟨root⟩) = .error e) :
    Project.ofRoot t root =
      if e = .notFound then .ok ⟨⟨root⟩, .ofName (ProjectLayout.inferredName root)⟩
      else .error (.unreadable (ProjectLayout.configFile ⟨root⟩) e) := by
  rw [Project.ofRoot, ProjectLayout.loadConfigOrDefault_of_error hread]
  split <;> rfl

theorem ofRoot_of_malformed {text : String} {e : Document.JsonError}
    (htext : t.HoldsText (ProjectLayout.configFile ⟨root⟩) text)
    (hjson : ProjectConfig.codec.readJson text = .error e) :
    Project.ofRoot t root = .error (.malformed (ProjectLayout.configFile ⟨root⟩) e) := by
  rw [Project.ofRoot, ProjectLayout.loadConfigOrDefault, ProjectLayout.loadConfig,
    FileTree.readText_eq_ok_iff.mpr htext]
  simp only [hjson]
  rfl

theorem ofRoot_of_decoded {text : String} {config : ProjectConfig}
    (htext : t.HoldsText (ProjectLayout.configFile ⟨root⟩) text)
    (hjson : ProjectConfig.codec.readJson text = .ok config) :
    Project.ofRoot t root = match config.flaw? with
      | some flaw => .error (.refused flaw)
      | none => .ok ⟨⟨root⟩, config⟩ := by
  rw [Project.ofRoot, ProjectLayout.loadConfigOrDefault, ProjectLayout.loadConfig,
    FileTree.readText_eq_ok_iff.mpr htext]
  simp only [hjson]
  cases config.flaw? <;> rfl

theorem Loading.ofRoot_eq {r : Except ProjectError Project} (h : Loading t root r) :
    Project.ofRoot t root = r := by
  cases h with
  | missing hread =>
    rw [ofRoot_of_error (by rw [FileTree.readText, hread]), if_pos rfl]
  | valid htext hjson hvalid =>
    rw [ofRoot_of_decoded htext hjson, ProjectConfig.flaw?_eq_none_iff.mpr hvalid]
  | unreadable hread hne =>
    rw [ofRoot_of_error (by rw [FileTree.readText, hread]), if_neg hne]
  | notText hread hdecode =>
    have htext : t.readText (ProjectLayout.configFile ⟨root⟩) = .error .notText := by
      rw [FileTree.readText, hread]
      simp only [hdecode]
    rw [ofRoot_of_error htext, if_neg (by decide)]
  | malformed htext hjson => exact ofRoot_of_malformed htext hjson
  | refused htext hjson hflaw =>
    rw [ofRoot_of_decoded htext hjson, ProjectConfig.flaw?_eq_some_iff.mpr hflaw]

/-- Loading always comes to something. -/
theorem exists_loading (t : FileTree) (root : Path) : ∃ r, Loading t root r := by
  cases hread : t.read (ProjectLayout.configFile ⟨root⟩) with
  | error e =>
    by_cases hmissing : e = .notFound
    · subst hmissing
      exact ⟨_, .missing hread⟩
    · exact ⟨_, .unreadable hread hmissing⟩
  | ok bytes =>
    cases hdecode : Text.decode? bytes with
    | none => exact ⟨_, .notText hread hdecode⟩
    | some text =>
      have htext : t.HoldsText (ProjectLayout.configFile ⟨root⟩) text := ⟨bytes, hread, hdecode⟩
      cases hjson : ProjectConfig.codec.readJson text with
      | error e => exact ⟨_, .malformed htext hjson⟩
      | ok config =>
        cases hflaw : config.flaw? with
        | none => exact ⟨_, .valid htext hjson (ProjectConfig.flaw?_eq_none_iff.mp hflaw)⟩
        | some flaw => exact ⟨_, .refused htext hjson (ProjectConfig.flaw?_eq_some_iff.mp hflaw)⟩

theorem ofRoot_eq_iff {r : Except ProjectError Project} :
    Project.ofRoot t root = r ↔ Loading t root r := by
  refine ⟨?_, Loading.ofRoot_eq⟩
  rintro rfl
  obtain ⟨r, hr⟩ := exists_loading t root
  rwa [hr.ofRoot_eq]

end

/-- Loading succeeds if there is no settings file, or if the file holds valid settings as UTF-8, and then
the settings are those of the inferred name or those in the file. So the settings of a project that is
loaded are never refused. Otherwise the error is the first that is met: the file is read, the text is
decoded, and then come the version and the issues, the least unknown one of each kind first. -/
theorem ofRoot_outcomes (t : FileTree) (root : Path) :
    ((∃ p, Project.ofRoot t root = .ok p) ↔
      t.read (ProjectLayout.configFile ⟨root⟩) = .error .notFound ∨
      ∃ text config, t.HoldsText (ProjectLayout.configFile ⟨root⟩) text ∧
        ProjectConfig.codec.readJson text = .ok config ∧ config.Valid) ∧
    (∀ r, Project.ofRoot t root = r ↔ Loading t root r) ∧
    ∀ p, Project.ofRoot t root = .ok p → p.config.flaw? = none := by
  refine ⟨⟨?_, ?_⟩, fun r => ofRoot_eq_iff, fun p hp => ?_⟩
  · rintro ⟨p, hp⟩
    cases ofRoot_eq_iff.mp hp with
    | missing hread => exact .inl hread
    | valid htext hjson hvalid => exact .inr ⟨_, _, htext, hjson, hvalid⟩
  · rintro (hread | ⟨text, config, htext, hjson, hvalid⟩)
    · exact ⟨_, (Loading.missing hread).ofRoot_eq⟩
    · exact ⟨_, (Loading.valid htext hjson hvalid).ofRoot_eq⟩
  · cases ofRoot_eq_iff.mp hp with
    | missing _ => exact ProjectConfig.flaw?_ofName _
    | valid _ _ hvalid => exact ProjectConfig.flaw?_eq_none_iff.mpr hvalid

/-- A project with settings of its own is loaded with these. -/
theorem ofRoot_outcomes_settings :
    let t := (workHost [(metaName, .dir [(configName, .file (plainConfig "demo") false)] false)]).tree
    ∃ p, Project.ofRoot t (FileTree.absolute workPlace) = .ok p ∧ p.config.name = "demo" ∧
      p.config.flaw? = none := by
  intro t
  have hlinks : (Node.dir
      [(metaName, .dir [(configName, .file (plainConfig "demo") false)] false)] false).Linkless := by
    simp [Node.Linkless, Node.EveryDir, everyDirAmong]
  have hfile : (Node.dir
      [(metaName, .dir [(configName, .file (plainConfig "demo") false)] false)] false).get?
      [metaName, configName] = some (.file (plainConfig "demo") false) := by
    simp [Node.get?, Node.child?]
  have hp := (holds_workHost hlinks).ofRoot_of_plainConfig (short_work _ (by simp)) hfile
  exact ⟨_, hp, rfl, (ofRoot_outcomes t _).2.2 _ hp⟩

end AndroidAudit
