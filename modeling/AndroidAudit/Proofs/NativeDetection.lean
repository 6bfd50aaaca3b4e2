import AndroidAudit.Audit.Scan
import AndroidAudit.Proofs.NativePlacement
import AndroidAudit.Proofs.NativeVerdict
import AndroidAudit.Proofs.StandardRules
import AndroidAudit.Proofs.TreeWalk

/-!
# Which files are audited, and which are reported

`Audited` says which files below the root of a project are looked at, and `Misplaced` which of them
are reported, both in terms of the names that lead to the file. `scanFiles_native` says that an audit
counts and checks each audited file once, reports each misplaced one once and reports nothing else.

Both depend on what the host lets be seen. A directory that it does not list hides all below it, and a
file that it does not open and read is counted and not reported. So it is with what is closed, and with
paths of more than `maxPathBytes` bytes, which a host does not take (`scanFiles_overlong`).
-/

namespace AndroidAudit

theorem Name.text_ofString (s : String) : (Name.ofString s).text = s := by
  simp [Name.text, Name.ofString, Function.comp_def, Text.Symbol.shown]

theorem Name.ofString_injective {a b : String} (h : Name.ofString a = Name.ofString b) : a = b := by
  rw [← text_ofString a, h, text_ofString]

/-- The place that some names lead to. -/
abbrev placeOf (names : List String) : List Name := names.map Name.ofString

theorem placeOf_append (a b : List String) : placeOf (a ++ b) = placeOf a ++ placeOf b :=
  List.map_append

/-! ## What is looked at -/

/-- A list starts with `x` if and only if `x` alone is a first part of it. -/
theorem head?_ne_iff {α : Type} {xs : List α} {x : α} :
    xs.head? ≠ some x ↔ ∀ a b, xs = a ++ b → a ≠ [x] := by
  constructor
  · rintro h _ b rfl rfl
    exact h rfl
  · intro h hx
    obtain ⟨rest, rfl⟩ := List.head?_eq_some_iff.mp hx
    exact h [x] rest rfl rfl

/-- The elements before the last end the parts that leave something over. -/
theorem forall_mem_dropLast_iff {α : Type} {xs : List α} {P : α → Prop} :
    (∀ x ∈ xs.dropLast, P x) ↔ ∀ a b, xs = a ++ b → b ≠ [] → ∀ x, a.getLast? = some x → P x := by
  constructor
  · rintro h a b rfl hb x hx
    refine h x ?_
    rw [List.dropLast_append_of_ne_nil hb]
    exact List.mem_append_left _ (List.mem_of_getLast? hx)
  · intro h x hx
    have hne : xs ≠ [] := List.ne_nil_of_mem (List.dropLast_subset _ hx)
    obtain ⟨a, b, e⟩ := List.append_of_mem hx
    refine h (a ++ [x]) (b ++ [xs.getLast hne]) ?_ (by simp) x (by simp)
    have hsplit := List.dropLast_append_getLast hne
    rw [e] at hsplit
    simpa using hsplit.symm

/-- A directory that is not looked into, wherever it is below the root. -/
def SkippedDir (d : String) : Prop :=
  d.toList.head? = some '.' ∨ d ∈ ["build", "target", "node_modules"]

theorem isSkippedName_ofString (d : String) :
    isSkippedName (Name.ofString d) = true ↔ SkippedDir d := by
  have hdot : (Name.ofString d).head? = some Path.dot ↔ d.toList.head? = some '.' := by
    cases h : d.toList <;> simp [Name.ofString, Path.dot, h]
  have hname (e : String) : Name.ofString d = Name.ofString e ↔ d = e :=
    ⟨Name.ofString_injective, congrArg _⟩
  simp [isSkippedName, SkippedDir, hdot, hname]

namespace ProjectLayout

theorem isInternal_descend (l : ProjectLayout) {place : List Name} (h : ∀ n ∈ place, n.Plain) :
    l.isInternal (l.root.descend place) = true ↔
      place = [Name.ofString ".droidlint"] ∨ place = [Name.ofString "reports"] := by
  have hsame (n : Name) (hn : n.Plain) :
      (l.root.descend place).same (l.root.descend [n]) = true ↔ place = [n] := by
    have hmap : place.map Component.name = [n].map Component.name ↔ place = [n] :=
      (List.map_injective_iff.mpr fun _ _ => Component.name.inj).eq_iff
    rw [Path.same, beq_iff_eq, Path.components_descend l.root h,
      Path.components_descend l.root (by simpa using hn), List.append_cancel_left_eq, hmap]
  rw [isInternal, Bool.or_eq_true]
  exact or_congr (hsame (Name.ofString ".droidlint") (by decide))
    (hsame (Name.ofString "reports") (by decide))

/-- A walk keeps all but the two directories of the project's own and, at any depth, skipped ones. -/
theorem keeps_below (l : ProjectLayout) {place : List Name} (h : ∀ n ∈ place, n.Plain) (node : Node) :
    l.keeps (.below l.root place node) = true ↔
      (node.isDir = true → ∀ n, place.getLast? = some n → isSkippedName n = false) ∧
        place ≠ [Name.ofString ".droidlint"] ∧ place ≠ [Name.ofString "reports"] := by
  have hname : (l.root.descend place).components.getLast? =
      (place.getLast?.map Component.name).or l.root.components.getLast? := by
    rw [Path.components_descend l.root h, List.getLast?_append, List.getLast?_map]
  have hskip : (place.length != 0 && node.isDir &&
      ((l.root.descend place).fileName?.map isSkippedName).getD false) = false ↔
      (node.isDir = true → ∀ n, place.getLast? = some n → isSkippedName n = false) := by
    rw [Path.fileName?, hname]
    rcases place.eq_nil_or_concat with rfl | ⟨init, n, rfl⟩
    · simp
    · cases node.isDir <;> simp
  rw [keeps, Bool.and_eq_true, Bool.not_eq_true', Bool.not_eq_true', ← Bool.not_eq_true (isInternal _ _)]
  refine and_congr hskip ?_
  rw [Visit.below, isInternal_descend l h, not_or]

theorem keeps_root (l : ProjectLayout) (node : Node) : l.keeps ⟨l.root, 0, node⟩ = true := by
  show l.keeps (.below l.root [] node) = true
  rw [l.keeps_below (by simp)]
  simp

theorem looksAt_placeOf (l : ProjectLayout) {names : List String} (h : ∀ n ∈ placeOf names, n.Plain)
    (node : Node) : looksAt l.keeps l.root (placeOf names) node = true ↔
      (names ≠ [".droidlint"] ∧ names ≠ ["reports"]) ∧
        (node.isDir = true → (∀ d, names.getLast? = some d → ¬ SkippedDir d) ∧
          node.isClosed = false ∧
          FileTree.byteCount (l.root.descend (placeOf names)).symbols ≤ maxPathBytes) := by
  have hplace (d : String) : placeOf names = [Name.ofString d] ↔ names = [d] :=
    (List.map_injective_iff.mpr fun _ _ => Name.ofString_injective).eq_iff (b := [d])
  have hskip : (∀ n, (placeOf names).getLast? = some n → isSkippedName n = false) ↔
      ∀ d, names.getLast? = some d → ¬ SkippedDir d := by
    simp [placeOf, ← isSkippedName_ofString]
  rw [looksAt_iff, keeps_below l h, hskip, Ne, hplace, Ne, hplace]
  tauto

end ProjectLayout

/-- A file below the root of a project that an audit looks at. The names of the directories above it
decide, and the host must list each of these directories. The file itself may be closed. -/
structure Audited (root : Path) (dir : Node) (names : List String) (file : Node) : Prop where
  /-- No link stands on the way to it. -/
  found : dir.get? (placeOf names) = some file
  isFile : file.isFile = true
  visible : ∀ d ∈ names.dropLast, ¬ SkippedDir d
  not_meta : names.head? ≠ some ".droidlint"
  not_reports : names.head? ≠ some "reports"
  /-- No directory on the way to it is closed, from the root to its own. -/
  listed : ∀ above, above <+: names.dropLast →
    ∃ entries, dir.get? (placeOf above) = some (.dir entries false)
  /-- The host takes the path of its directory. -/
  reached : FileTree.byteCount (root.descend (placeOf names.dropLast)).symbols ≤ maxPathBytes

section

variable {l : ProjectLayout} {dir file : Node} {names : List String}

/-- A file at a place to which each step is open is audited. -/
theorem Audited.of_looksAt (hallowed : dir.Allowed) (hdir : dir.isDir = true)
    (hget : dir.get? (placeOf names) = some file) (hfile : file.isFile = true)
    (hsteps : ∀ a b m, placeOf names = a ++ b → dir.get? a = some m →
      looksAt l.keeps l.root a m = true) : Audited l.root dir names file := by
  have hplain : ∀ n ∈ placeOf names, n.Plain := fun n hn => (hallowed.of_get? hget n hn).toPlain
  have hlooks (a b : List String) (e : names = a ++ b) : ∃ m, dir.get? (placeOf a) = some m ∧
      (b ≠ [] → m.isDir = true) ∧ looksAt l.keeps l.root (placeOf a) m = true ∧
      ∀ n ∈ placeOf a, n.Plain := by
    have e' : placeOf names = placeOf a ++ placeOf b := by rw [e, placeOf_append]
    have ha : ∀ n ∈ placeOf a, n.Plain := fun n hn => hplain n (e' ▸ List.mem_append_left _ hn)
    by_cases hb : b = []
    · subst hb
      rw [List.append_nil] at e
      exact ⟨file, e ▸ hget, by simp, hsteps _ _ _ e' (e ▸ hget), ha⟩
    · rw [e'] at hget
      obtain ⟨es, closed, hmid⟩ := Node.dir_of_get?_append hget (by simpa using hb)
      exact ⟨.dir es closed, hmid, fun _ => rfl, hsteps _ _ _ e' hmid, ha⟩
  have hkept (a b : List String) (e : names = a ++ b) : a ≠ [".droidlint"] ∧ a ≠ ["reports"] := by
    obtain ⟨m, -, -, hm, ha⟩ := hlooks a b e
    exact ((l.looksAt_placeOf ha m).mp hm).1
  have hlisted (a b : List String) (e : names = a ++ b) (hb : b ≠ []) :
      (∀ d, a.getLast? = some d → ¬ SkippedDir d) ∧
        (∃ entries, dir.get? (placeOf a) = some (.dir entries false)) ∧
        FileTree.byteCount (l.root.descend (placeOf a)).symbols ≤ maxPathBytes := by
    obtain ⟨m, hget, hisDir, hm, ha⟩ := hlooks a b e
    obtain ⟨hvisible, hclosed, hshort⟩ := ((l.looksAt_placeOf ha m).mp hm).2 (hisDir hb)
    obtain ⟨entries, closed, rfl⟩ := Node.eq_dir_of_isDir (hisDir hb)
    obtain rfl : closed = false := hclosed
    exact ⟨hvisible, ⟨entries, hget⟩, hshort⟩
  have hne : names ≠ [] := by
    rintro rfl
    rw [placeOf, List.map_nil, Node.get?, Option.some.injEq] at hget
    obtain ⟨entries, closed, rfl⟩ := Node.eq_dir_of_isDir hdir
    rw [← hget] at hfile
    cases hfile
  have hlast := (List.dropLast_append_getLast hne).symm
  exact {
    found := hget
    isFile := hfile
    visible := forall_mem_dropLast_iff.mpr fun a b e hb => (hlisted a b e hb).1
    not_meta := head?_ne_iff.mpr fun a b e => (hkept a b e).1
    not_reports := head?_ne_iff.mpr fun a b e => (hkept a b e).2
    listed := by
      rintro above ⟨more, hmore⟩
      rw [← hmore, List.append_assoc] at hlast
      exact (hlisted above _ hlast (by simp)).2.1
    reached := (hlisted _ _ hlast (by simp)).2.2 }

/-- Each step to an audited file is open. -/
theorem Audited.looksAt (hallowed : dir.Allowed) (h : Audited l.root dir names file) {a b : List Name}
    {m : Node} (e : placeOf names = a ++ b) (hm : dir.get? a = some m) :
    looksAt l.keeps l.root a m = true := by
  have hplain : ∀ n ∈ placeOf names, n.Plain := fun n hn => (hallowed.of_get? h.found n hn).toPlain
  obtain ⟨a, b, e', rfl, rfl⟩ := List.map_eq_append_iff.mp e
  have ha : ∀ n ∈ placeOf a, n.Plain := fun n hn => hplain n (e ▸ List.mem_append_left _ hn)
  rw [l.looksAt_placeOf ha]
  refine ⟨⟨head?_ne_iff.mp h.not_meta a b e', head?_ne_iff.mp h.not_reports a b e'⟩, fun hisDir => ?_⟩
  have hb : b ≠ [] := by
    rintro rfl
    rw [List.append_nil] at e'
    have hfound := h.found
    rw [e', placeOf, hm, Option.some.injEq] at hfound
    obtain ⟨entries, closed, rfl⟩ := Node.eq_dir_of_isDir hisDir
    cases hfound ▸ h.isFile
  have habove : names.dropLast = a ++ b.dropLast := by rw [e', List.dropLast_append_of_ne_nil hb]
  refine ⟨forall_mem_dropLast_iff.mp h.visible a b e' hb, ?_, Nat.le_trans ?_ h.reached⟩
  · obtain ⟨entries, hentries⟩ := h.listed a (habove ▸ List.prefix_append _ _)
    rw [placeOf, hm, Option.some.injEq] at hentries
    rw [hentries]
    rfl
  · rw [habove, placeOf_append, Path.descend_append]
    refine FileTree.byteCount_descend _ fun n hn => hplain n (e ▸ List.mem_append_right _ ?_)
    obtain ⟨d, hd, rfl⟩ := List.mem_map.mp hn
    exact List.mem_map_of_mem (List.dropLast_subset _ hd)

/-- The files that a walk meets are the audited ones. -/
theorem mem_filesAt_keeps (hdir : dir.isDir = true) (hallowed : dir.Allowed) :
    (placeOf names, file) ∈ dir.filesAt (AndroidAudit.looksAt l.keeps l.root) [] ↔
      Audited l.root dir names file := by
  rw [Node.mem_filesAt hallowed.distinct]
  simp only [List.nil_append]
  constructor
  · rintro ⟨place, rfl, hget, hfile, hsteps⟩
    exact .of_looksAt hallowed hdir hget hfile hsteps
  · exact fun h => ⟨_, rfl, h.found, h.isFile, fun a b m e hm => h.looksAt hallowed e hm⟩

end

/-! ## What is reported -/

namespace NativeCodePolicy

theorem signature?_isSome (p : NativeCodePolicy) {bytes : List UInt8} :
    (p.signature? bytes).isSome = true ↔ ∃ s ∈ p.signatures, s.magic ≠ [] ∧ s.magic <+: bytes := by
  rw [signature?, List.find?_isSome]
  simp

/-- A file stands in a content root if one of the directories above it has the name of one, up to
case. -/
theorem placement_eq_contentRoot {p : NativeCodePolicy} {names : List String} (hne : names ≠ [])
    (h : ∀ n ∈ placeOf names, n.Plain) :
    p.placement ⟨Path.joinNames (placeOf names)⟩ = .contentRoot ↔
      ∃ d ∈ names.dropLast, ∃ r ∈ p.contentRoots, Text.foldCase r.toList = Text.foldCase d.toList := by
  have hdirs : Path.dirNames ⟨Path.joinNames (placeOf names)⟩ = names.dropLast := by
    rw [← directories_eq, directories_joinNames (by simpa using hne) h, placeOf, ← List.map_dropLast,
      List.map_map]
    simp [Function.comp_def, Name.text_ofString]
  rw [placement_eq_contentRoot_iff, hdirs]
  simp only [NamedLike, ← Text.eqFoldCase_iff_sameButCase, Text.eqFoldCase_iff]

end NativeCodePolicy

/-- The bytes of a file, if the host gives them out. -/
def Node.bytes? : Node → Option (List UInt8)
  | .file bytes false => some bytes
  | _ => none

theorem Node.eq_file_of_bytes? {node : Node} {bytes : List UInt8} (h : node.bytes? = some bytes) :
    node = .file bytes false := by
  rcases node with ⟨_, _ | _⟩ | _ | _ <;> cases h
  rfl

/-- An audited file that is native code in a content root, and that the host opens and reads. -/
structure Misplaced (policy : NativeCodePolicy) (root : Path) (names : List String) (file : Node) :
    Prop where
  content : ∃ d ∈ names.dropLast, ∃ r ∈ policy.contentRoots,
    Text.foldCase r.toList = Text.foldCase d.toList
  native : ∃ bytes, file.bytes? = some bytes ∧ ∃ s ∈ policy.signatures, s.magic ≠ [] ∧ s.magic <+: bytes
  /-- The host takes its path. -/
  opened : FileTree.byteCount (root.descend (placeOf names)).symbols ≤ maxPathBytes

/-- What is reported of a misplaced file. -/
def nativeFinding (names : List String) : Finding where
  ruleId := "UnsafeNativeCodeLocation"
  severity := .warning
  location := .file (NativeCodePolicy.shownPath ⟨Path.joinNames (placeOf names)⟩)
  message :=
    if NativeCodePolicy.isSharedLibrary (NativeCodePolicy.shownPath ⟨Path.joinNames (placeOf names)⟩)
    then NativeCodePolicy.sharedLibraryMessage else NativeCodePolicy.executableMessage

section

variable {t : FileTree} {root : Path} {entries : List (Name × Node)} {closed : Bool} {file : Node}

theorem Node.ne_link_of_isFile (h : file.isFile = true) (target : Path) : file ≠ .link target := by
  rintro rfl
  cases h

theorem FileTree.read_descend (hroot : t.node .target root = .ok (.dir entries closed))
    {place : List Name} (hnames : ∀ n ∈ place, n.Allowed)
    (hget : (Node.dir entries closed).get? place = some file) (hfile : file.isFile = true) :
    (t.read (root.descend place)).toOption =
      if byteCount (root.descend place).symbols ≤ maxPathBytes then file.bytes? else none := by
  rw [read]
  split_ifs with hshort
  · rw [node_descend hroot hget (Node.ne_link_of_isFile hfile) hnames hshort]
    rcases file with ⟨bytes, _ | _⟩ | _ | _ <;> first | rfl | cases hfile
  · obtain ⟨e, he⟩ := @node_of_tooLong t .target _ (Nat.not_le.mp hshort)
    rw [he]
    rfl

/-- What is reported of a file below the root is read off the names that lead to it from there, if the
host opens and reads it. -/
theorem NativeCodePolicy.checkFile?_place (p : NativeCodePolicy)
    (hroot : t.node .target root = .ok (.dir entries closed)) {place : List Name}
    (hnames : ∀ n ∈ place, n.Allowed) (hget : (Node.dir entries closed).get? place = some file)
    (hfile : file.isFile = true) :
    p.checkFile? t root (root.descend place) =
      if FileTree.byteCount (root.descend place).symbols ≤ maxPathBytes then
        file.bytes?.bind (p.classify? ⟨Path.joinNames place⟩)
      else none := by
  have hne : place ≠ [] := by
    rintro rfl
    cases hget
    cases hfile
  have hrel : (root.descend place).relativeTo root = ⟨Path.joinNames place⟩ :=
    Path.relativeTo_descend (FileTree.spot_of_node hroot).2.1 hne fun n hn => (hnames n hn).toPlain
  rw [checkFile?_eq, FileTree.read_descend hroot hnames hget hfile, hrel]
  split_ifs <;> rfl

/-- Of a file below the root the one finding is reported if it is misplaced, and else nothing. -/
theorem NativeCodePolicy.checkFile?_descend (p : NativeCodePolicy)
    (hroot : t.node .target root = .ok (.dir entries closed))
    (hallowed : (Node.dir entries closed).Allowed) {names : List String}
    (hget : (Node.dir entries closed).get? (placeOf names) = some file) (hfile : file.isFile = true)
    {f : Finding} :
    p.checkFile? t root (root.descend (placeOf names)) = some f ↔
      Misplaced p root names file ∧ f = nativeFinding names := by
  have hnames := hallowed.of_get? hget
  have hplain : ∀ n ∈ placeOf names, n.Plain := fun n hn => (hnames n hn).toPlain
  have hne : names ≠ [] := by
    rintro rfl
    cases hget
    cases hfile
  rw [p.checkFile?_place hroot hnames hget hfile]
  constructor
  · intro h
    split_ifs at h with hshort
    obtain ⟨bytes, hbytes, h⟩ := Option.bind_eq_some_iff.mp h
    obtain ⟨hplacement, hsome, rfl⟩ := classify?_eq_some.mp h
    exact ⟨⟨(placement_eq_contentRoot hne hplain).mp hplacement,
      ⟨bytes, hbytes, p.signature?_isSome.mp hsome⟩, hshort⟩, rfl⟩
  · rintro ⟨hm, rfl⟩
    obtain ⟨bytes, hbytes, hnative⟩ := hm.native
    rw [if_pos hm.opened, hbytes]
    exact classify?_eq_some.mpr ⟨(placement_eq_contentRoot (p := p) hne hplain).mpr hm.content,
      p.signature?_isSome.mpr hnative, rfl⟩

end

theorem placeOf_text {place : List Name} (h : ∀ n ∈ place, n.Legal) :
    placeOf (place.map Name.text) = place := by
  have hid : ∀ n ∈ place, (Name.ofString ∘ Name.text) n = n := by
    intro n hn
    obtain ⟨s, rfl⟩ := (h n hn).text
    rw [Function.comp_apply, Name.text_ofString]
  rw [placeOf, List.map_map, List.map_congr_left hid, List.map_id']

/-! ## The audit of the files -/

/-- What is reported of the file that some names lead to from the root of a project. -/
def Project.reportAt (p : Project) (t : FileTree) (names : List String) : List Finding :=
  RuleSet.standard.checkFile p.config.nativeCode t p.layout.root (p.layout.root.descend (placeOf names))

theorem Project.scanFiles_eq {p : Project} {t : FileTree} {entries : List (Name × Node)}
    {closed : Bool} (hreport : p.config.reportIssues = true)
    (hroot : t.node .target p.layout.root = .ok (.dir entries closed)) :
    let met := (Node.dir entries closed).filesAt (looksAt p.layout.keeps p.layout.root) []
    (p.scanFiles .standard t).count = met.length ∧
      (p.scanFiles .standard t).findings = met.flatMap fun f =>
        RuleSet.standard.checkFile p.config.nativeCode t p.layout.root (p.layout.root.descend f.1) := by
  have hwalk : walkedFiles (t.walk p.layout.keeps p.layout.root) = _ :=
    FileTree.walkedFiles_walk hroot p.layout.keeps_root
  rw [walkedFiles] at hwalk
  rw [scanFiles, hreport, RuleSet.hasFileRules_standard]
  simp only [Bool.not_true, Bool.false_eq_true, if_false, hwalk, List.length_map, List.flatMap_map,
    true_and]
  rfl

/-- What is reported of a misplaced file is among the findings. -/
theorem nativeFinding_mem_scanFiles {p : Project} {t : FileTree} {entries : List (Name × Node)}
    {closed : Bool} (hreport : p.config.reportIssues = true)
    (hroot : t.node .target p.layout.root = .ok (.dir entries closed))
    (hallowed : (Node.dir entries closed).Allowed) {names : List String} {file : Node}
    (ha : Audited p.layout.root (.dir entries closed) names file)
    (hm : Misplaced p.config.nativeCode p.layout.root names file) :
    nativeFinding names ∈ (p.scanFiles .standard t).findings := by
  rw [(Project.scanFiles_eq hreport hroot).2, List.mem_flatMap]
  refine ⟨(placeOf names, file), (mem_filesAt_keeps rfl hallowed).mpr ha, ?_⟩
  rw [RuleSet.checkFile_standard,
    (NativeCodePolicy.checkFile?_descend _ hroot hallowed ha.found ha.isFile).mpr ⟨hm, rfl⟩]
  exact List.mem_singleton.mpr rfl

section

variable {l : ProjectLayout} {dir : Node}

theorem placeOf_of_mem_filesAt (hlegal : dir.Legal) {f : List Name × Node}
    (hf : f ∈ dir.filesAt (looksAt l.keeps l.root) []) : placeOf (f.1.map Name.text) = f.1 := by
  obtain ⟨names, hplace, hget, -⟩ := (Node.mem_filesAt hlegal.distinct).mp hf
  have hplace : f.1 = names := hplace
  exact placeOf_text (hplace ▸ hlegal.of_get? hget)

/-- The files that an audit looks at, by the names that lead to them. -/
def auditedFiles (l : ProjectLayout) (dir : Node) : List (List String × Node) :=
  (dir.filesAt (looksAt l.keeps l.root) []).map fun f => (f.1.map Name.text, f.2)

theorem mem_auditedFiles (hdir : dir.isDir = true) (hlegal : dir.Legal) {names : List String}
    {file : Node} : (names, file) ∈ auditedFiles l dir ↔ Audited l.root dir names file := by
  rw [← mem_filesAt_keeps hdir hlegal.allowed, auditedFiles, List.mem_map]
  constructor
  · rintro ⟨⟨place, file⟩, hf, he⟩
    obtain ⟨rfl, rfl⟩ := Prod.mk.inj he
    have hplace : placeOf (place.map Name.text) = place := placeOf_of_mem_filesAt hlegal hf
    rwa [hplace]
  · intro hf
    refine ⟨_, hf, ?_⟩
    simp [placeOf, Function.comp_def, Name.text_ofString]

theorem nodup_auditedFiles (hlegal : dir.Legal) : ((auditedFiles l dir).map (·.1)).Nodup := by
  rw [auditedFiles, List.map_map]
  refine List.Nodup.of_map placeOf ?_
  rw [List.map_map]
  have hplaces : ∀ f ∈ dir.filesAt (looksAt l.keeps l.root) [],
      (placeOf ∘ (·.1) ∘ fun f : List Name × Node => (f.1.map Name.text, f.2)) f = f.1 :=
    fun f hf => placeOf_of_mem_filesAt hlegal hf
  rw [List.map_congr_left hplaces]
  exact Node.nodup_filesAt hlegal.distinct

end

/-- Of a file below the root the one finding is reported, or nothing. -/
theorem Project.reportAt_file {p : Project} {t : FileTree} {entries : List (Name × Node)}
    {closed : Bool} (hroot : t.node .target p.layout.root = .ok (.dir entries closed))
    (hallowed : (Node.dir entries closed).Allowed) {names : List String} {file : Node}
    (hget : (Node.dir entries closed).get? (placeOf names) = some file) (hfile : file.isFile = true) :
    (Misplaced p.config.nativeCode p.layout.root names file →
        p.reportAt t names = [nativeFinding names]) ∧
      (¬ Misplaced p.config.nativeCode p.layout.root names file → p.reportAt t names = []) := by
  have hreported {f : Finding} :=
    p.config.nativeCode.checkFile?_descend hroot hallowed hget hfile (f := f)
  rw [reportAt, RuleSet.checkFile_standard]
  constructor
  · intro hm
    rw [hreported.mpr ⟨hm, rfl⟩, Option.toList_some]
  · intro hm
    rw [Option.toList_eq_nil_iff, Option.eq_none_iff_forall_ne_some]
    exact fun f hf => hm (hreported.mp hf).1

/-- An audit of the files of a project counts the audited files, each once, and checks each of them. A
file that is misplaced gives one finding, and every other file gives none. -/
theorem scanFiles_native (p : Project) (t : FileTree) (dir : Node)
    (hreport : p.config.reportIssues = true) (hroot : t.node .target p.layout.root = .ok dir)
    (hdir : dir.isDir = true) (hlegal : dir.Legal) :
    ∃ files : List (List String × Node),
      (files.map (·.1)).Nodup ∧
      (∀ names file, (names, file) ∈ files ↔ Audited p.layout.root dir names file) ∧
      (p.scanFiles .standard t).count = files.length ∧
      (p.scanFiles .standard t).findings = files.flatMap (fun f => p.reportAt t f.1) ∧
      ∀ f ∈ files,
        (Misplaced p.config.nativeCode p.layout.root f.1 f.2 →
          p.reportAt t f.1 = [nativeFinding f.1]) ∧
        (¬ Misplaced p.config.nativeCode p.layout.root f.1 f.2 → p.reportAt t f.1 = []) := by
  obtain ⟨entries, closed, rfl⟩ := Node.eq_dir_of_isDir hdir
  obtain ⟨hcount, hfindings⟩ := Project.scanFiles_eq hreport hroot
  refine ⟨auditedFiles p.layout (.dir entries closed), nodup_auditedFiles hlegal,
    fun _ _ => mem_auditedFiles hdir hlegal, ?_, ?_, ?_⟩
  · rw [hcount, auditedFiles, List.length_map]
  · rw [hfindings, auditedFiles, List.flatMap_map]
    refine List.flatMap_congr fun f hf => ?_
    rw [Project.reportAt, placeOf_of_mem_filesAt hlegal hf]
  · rintro ⟨names, file⟩ hf
    have haudited := (mem_auditedFiles hdir hlegal).mp hf
    exact Project.reportAt_file hroot hlegal.allowed haudited.found haudited.isFile

theorem Name.legal_ofString {s : String} (hplain : (Name.ofString s).Plain)
    (hnul : Text.Symbol.char '\x00' ∉ Name.ofString s)
    (hshort : FileTree.byteCount (Name.ofString s) ≤ maxNameBytes) : (Name.ofString s).Legal :=
  { hplain with text := ⟨s, rfl⟩, no_nul := hnul, short := hshort }

/-- A directory with one native file below `res`. -/
def resourceTree (name : String) : Node := .dir (resources name false) false

theorem legal_resourceTree {name : String} (h : (Name.ofString name).Legal) :
    (resourceTree name).Legal := by
  have hres : (Name.ofString "res").Legal := Name.legal_ofString (by decide) (by decide) (by decide)
  simp [resourceTree, resources, Node.Legal, Node.EveryDir, everyDirAmong, h, hres]

theorem audited_resourceTree {root : Path} {name : String}
    (h : FileTree.byteCount (root.descend (placeOf ["res"])).symbols ≤ maxPathBytes) :
    Audited root (resourceTree name) ["res", name] (.file [0x7F, 0x45, 0x4C, 0x46] false) where
  found := by simp [resourceTree, resources, Node.get?, Node.child?]
  isFile := rfl
  visible := by simp [SkippedDir]
  not_meta := by simp
  not_reports := by simp
  listed := by simp [List.prefix_cons_iff, resourceTree, resources, Node.get?, Node.child?]
  reached := h

theorem standard_content (name : String) : ∃ d ∈ ["res", name].dropLast,
    ∃ r ∈ NativeCodePolicy.standard.contentRoots, Text.foldCase r.toList = Text.foldCase d.toList :=
  ⟨"res", by simp, "res", by simp [NativeCodePolicy.standard], rfl⟩

theorem standard_native (more : List UInt8) :
    ∃ bytes, (Node.file ([0x7F, 0x45, 0x4C, 0x46] ++ more) false).bytes? = some bytes ∧
      ∃ s ∈ NativeCodePolicy.standard.signatures, s.magic ≠ [] ∧ s.magic <+: bytes :=
  ⟨_, rfl, _, List.mem_singleton.mpr rfl, by simp, List.prefix_append _ _⟩

/-- A library below the current directory is found. -/
theorem scanFiles_native_library :
    let p : Project := ⟨⟨.ofString "."⟩, .ofName "demo"⟩
    let t : FileTree := ⟨.dir [(Name.ofString "w", resourceTree "libx.so")] false, [Name.ofString "w"]⟩
    p.config.reportIssues = true ∧ t.node .target p.layout.root = .ok (resourceTree "libx.so") ∧
      (resourceTree "libx.so").isDir = true ∧ (resourceTree "libx.so").Legal ∧
      nativeFinding ["res", "libx.so"] ∈ (p.scanFiles .standard t).findings := by
  intro p t
  have hcwd : t.root.get? t.cwd = some (resourceTree "libx.so") := by simp [t, Node.get?, Node.child?]
  have hroot : t.node .target ⟨dots 0⟩ = .ok (resourceTree "libx.so") :=
    FileTree.node_dots hcwd (by decide)
  have hlegal : (resourceTree "libx.so").Legal :=
    legal_resourceTree (Name.legal_ofString (by decide) (by decide) (by decide))
  refine ⟨rfl, hroot, rfl, hlegal, ?_⟩
  obtain ⟨files, -, hmem, -, hfindings, hreport⟩ := scanFiles_native p t _ rfl hroot rfl hlegal
  have hfile := (hmem _ _).mpr (audited_resourceTree (by decide))
  have hfound := (hreport _ hfile).1 ⟨standard_content _, standard_native [], by decide⟩
  rw [hfindings, List.mem_flatMap]
  exact ⟨_, hfile, by rw [hfound]; exact List.mem_singleton.mpr rfl⟩

/-! ## Files that cannot be opened -/

/-- A name of one letter, so many times. -/
def letters (k : Nat) : String := String.ofList (List.replicate k 'a')

theorem ofString_letters (k : Nat) : Name.ofString (letters k) = List.replicate k (.char 'a') := by
  rw [Name.ofString, letters, String.toList_ofList, List.map_replicate]

theorem byteCount_letters (k : Nat) : FileTree.byteCount (Name.ofString (letters k)) = k := by
  rw [ofString_letters]
  induction k with
  | zero => rfl
  | succ k ih =>
    have hstep : FileTree.byteCount (List.replicate (k + 1) (.char 'a')) =
        1 + FileTree.byteCount (List.replicate k (.char 'a')) := rfl
    omega

theorem legal_letters {k : Nat} (hpos : 0 < k) (h : k ≤ maxNameBytes) :
    (Name.ofString (letters k)).Legal := by
  have hother (s : Text.Symbol) (hs : s ≠ .char 'a') : s ∉ Name.ofString (letters k) := by
    rw [ofString_letters, List.mem_replicate]
    exact fun hmem => hs hmem.2
  have hdot := hother Path.dot (by decide)
  refine Name.legal_ofString ⟨?_, ?_, ?_, hother _ (by decide)⟩ (hother _ (by decide))
    (by rwa [byteCount_letters])
  · rw [ofString_letters]
    simp only [ne_eq, List.replicate_eq_nil_iff]
    omega
  · exact fun e => hdot (e ▸ List.mem_cons_self)
  · exact fun e => hdot (e ▸ List.mem_cons_self)

section

variable {t : FileTree} {n k : Nat}

theorem byteCount_dots_res : FileTree.byteCount (Path.descend ⟨dots n⟩ (placeOf ["res"])).symbols =
    2 * n + 5 := by
  rw [placeOf, List.map_singleton, Path.descend_cons, Path.descend_nil, byteCount_dots_child (by decide)]
  rfl

theorem byteCount_dots_res_letters (hpos : 0 < k) (hk : k ≤ maxNameBytes) :
    FileTree.byteCount (Path.descend ⟨dots n⟩ (placeOf ["res", letters k])).symbols = 2 * n + 6 + k := by
  have hchild := FileTree.byteCount_child_of_getLast? (legal_letters hpos hk).toPlain
    (Path.symbols_child_ne_nil ⟨dots n⟩ (n := Name.ofString "res") (by decide))
    (Path.getLast?_symbols_child ⟨dots n⟩ (by decide))
  have hres : FileTree.byteCount (Path.child ⟨dots n⟩ (Name.ofString "res")).symbols = 2 * n + 5 :=
    byteCount_dots_res
  rw [hres, byteCount_letters] at hchild
  show FileTree.byteCount (Path.child (Path.child ⟨dots n⟩ _) _).symbols = _
  rw [hchild]
  omega

/-- From a root spelled with dots, a file in a content root is counted and not reported if the path of
its directory is just short enough. -/
theorem scanFiles_dots {p : Project} (hreport : p.config.reportIssues = true)
    (hlayout : p.layout.root = ⟨dots n⟩) (hcwd : t.root.get? t.cwd = some (resourceTree (letters k)))
    (hpos : 0 < k) (hk : k ≤ maxNameBytes) (hshort : 2 * n + 5 ≤ maxPathBytes)
    (hlong : maxPathBytes < 2 * n + 6 + k) :
    Audited p.layout.root (resourceTree (letters k)) ["res", letters k]
        (.file [0x7F, 0x45, 0x4C, 0x46] false) ∧
      (p.scanFiles .standard t).count = 1 ∧ (p.scanFiles .standard t).findings = [] := by
  have hlegal := legal_resourceTree (legal_letters hpos hk)
  have haudited : Audited p.layout.root (resourceTree (letters k)) ["res", letters k]
      (.file [0x7F, 0x45, 0x4C, 0x46] false) :=
    audited_resourceTree (by rw [hlayout, byteCount_dots_res]; exact hshort)
  have hroot : t.node .target p.layout.root = .ok (resourceTree (letters k)) := by
    rw [hlayout]
    exact FileTree.node_dots hcwd (by omega)
  have hmet : (resourceTree (letters k)).filesAt (looksAt p.layout.keeps p.layout.root) [] =
      [(placeOf ["res", letters k], .file [0x7F, 0x45, 0x4C, 0x46] false)] := by
    have h₀ := haudited.looksAt (l := p.layout) hlegal.allowed (a := []) rfl rfl
    have h₁ := haudited.looksAt (l := p.layout) hlegal.allowed (a := [Name.ofString "res"]) rfl rfl
    have h₂ := haudited.looksAt (l := p.layout) hlegal.allowed (List.append_nil _).symm haudited.found
    rw [resourceTree, resources] at h₀
    rw [resourceTree, resources, Node.filesAt, if_pos h₀, filesAmong, filesAmong, List.append_nil]
    rw [Node.filesAt, List.nil_append, if_pos h₁, filesAmong, filesAmong, List.append_nil]
    rw [Node.filesAt, List.singleton_append]
    exact if_pos h₂
  obtain ⟨hcount, hfindings⟩ := Project.scanFiles_eq hreport hroot
  rw [← resourceTree, hmet] at hcount hfindings
  refine ⟨haudited, hcount, ?_⟩
  have hnone : p.config.nativeCode.checkFile? t p.layout.root
      (p.layout.root.descend (placeOf ["res", letters k])) = none := by
    rw [Option.eq_none_iff_forall_ne_some]
    intro found hfound
    have hopened := ((NativeCodePolicy.checkFile?_descend _ hroot hlegal.allowed haudited.found
      haudited.isFile).mp hfound).1.opened
    rw [hlayout, byteCount_dots_res_letters hpos hk] at hopened
    omega
  rw [hfindings, List.flatMap_singleton, RuleSet.checkFile_standard, hnone]
  rfl

end

/-- Native code in a content root is counted and not reported, where its path below the root, as the
root is spelled, is too long for the host. -/
theorem scanFiles_overlong :
    let p : Project := ⟨⟨⟨dots 2000⟩⟩, .ofName "demo"⟩
    let dir := resourceTree (letters 200)
    let t : FileTree := ⟨.dir [(Name.ofString "w", dir)] false, [Name.ofString "w"]⟩
    p.config.reportIssues = true ∧ t.node .target p.layout.root = .ok dir ∧ dir.Legal ∧
      Audited p.layout.root dir ["res", letters 200] (.file [0x7F, 0x45, 0x4C, 0x46] false) ∧
      (∃ d ∈ ["res", letters 200].dropLast, ∃ r ∈ p.config.nativeCode.contentRoots,
        Text.foldCase r.toList = Text.foldCase d.toList) ∧
      (∃ s ∈ p.config.nativeCode.signatures, s.magic ≠ [] ∧ s.magic <+: [0x7F, 0x45, 0x4C, 0x46]) ∧
      (p.scanFiles .standard t).count = 1 ∧ (p.scanFiles .standard t).findings = [] := by
  intro p dir t
  have hcwd : t.root.get? t.cwd = some dir := by simp [t, Node.get?, Node.child?]
  obtain ⟨haudited, hcount, hfindings⟩ := scanFiles_dots (p := p) rfl rfl hcwd
    (by decide) (by decide) (by decide) (by decide)
  have hlegal : dir.Legal := legal_resourceTree (legal_letters (by decide) (by decide))
  obtain ⟨bytes, hbytes, hnative⟩ := standard_native []
  cases hbytes
  exact ⟨rfl, FileTree.node_dots hcwd (by decide), hlegal, haudited, standard_content _, hnative,
    hcount, hfindings⟩

end AndroidAudit
