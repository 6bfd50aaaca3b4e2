import AndroidAudit.Proofs.FlaggedFiles
import AndroidAudit.Proofs.OwnFiles

/-!
# Audits do not see a project's own files

Trees that differ in a project's own files alone (`OwnChange`) hold the same files for an audit
(`OwnChange.filesAt_eq`), and each of these reads the same (`OwnChange.node_eq`). So an audit counts and
finds the same in both (`OwnChange.audit_eq`).

A digest is read by the text that names a file, and a text in which a slash stands for a backslash may
lead to an own file. Where no reported file has a backslash in its path (`PlainlyNamed`) the digests
are the same too (`OwnChange.attachDigest_eq`).
-/

namespace AndroidAudit

open Text (Symbol)

/-! ## The files of an audit -/

theorem filesAmong_filter {isOpen : List Name → Node → Bool} {place : List Name} {keep : Name → Bool}
    {entries : List (Name × Node)}
    (h : ∀ e ∈ entries, keep e.1 = false → isOpen (place ++ [e.1]) e.2 = false) :
    filesAmong isOpen place entries = filesAmong isOpen place (entries.filter (keep ·.1)) := by
  induction entries with
  | nil => rfl
  | cons e rest ih =>
    obtain ⟨n, node⟩ := e
    obtain ⟨hhead, htail⟩ := List.forall_mem_cons.mp h
    rw [filesAmong, List.filter_cons, ih htail]
    cases hkeep : keep n with
    | true => rw [if_pos rfl, filesAmong]
    | false =>
      have hshut := hhead hkeep
      have hnone : node.filesAt isOpen (place ++ [n]) = [] := by
        cases node <;> simp [Node.filesAt, hshut]
      rw [hnone, List.nil_append, if_neg Bool.false_ne_true]

theorem lookup_filter {keep : Name → Bool} {n : Name} (h : keep n = true)
    (entries : List (Name × Node)) : (entries.filter (keep ·.1)).lookup n = entries.lookup n := by
  induction entries with
  | nil => rfl
  | cons e rest ih =>
    rw [List.filter_cons, List.lookup_cons]
    by_cases hn : n = e.1
    · rw [← hn, if_pos h, List.lookup_cons, ← hn, beq_self_eq_true]
    · rw [beq_eq_false_iff_ne.mpr hn]
      split
      · rw [List.lookup_cons, beq_eq_false_iff_ne.mpr hn, ih]
      · exact ih

/-- The own directories are shut to an audit. -/
theorem ProjectLayout.looksAt_own (l : ProjectLayout) {n : Name} (h : isOther n = false) (node : Node) :
    looksAt l.keeps l.root [n] node = false := by
  have hname : n = metaName ∨ n = reportsName := by
    by_contra hn
    rw [not_or] at hn
    simp [isOther, hn.1, hn.2] at h
  have hplain : ∀ m ∈ [n], m.Plain := by rcases hname with rfl | rfl <;> decide
  rw [looksAt, Bool.and_eq_false_iff]
  left
  rw [← Bool.not_eq_true, l.keeps_below hplain]
  rintro ⟨-, hmeta, hreports⟩
  rcases hname with rfl | rfl
  · exact hmeta rfl
  · exact hreports rfl

/-- A file that an audit meets stands under names that a host allows, of which the first is not that of
an own directory. -/
theorem ProjectLayout.of_mem_filesAt (l : ProjectLayout) {entries : List (Name × Node)} {closed : Bool}
    (hallowed : (Node.dir entries closed).Allowed) {f : List Name × Node}
    (hf : f ∈ (Node.dir entries closed).filesAt (looksAt l.keeps l.root) []) :
    (Node.dir entries closed).get? f.1 = some f.2 ∧ f.2.isFile = true ∧ (∀ n ∈ f.1, n.Allowed) ∧
      ∃ n rest, f.1 = n :: rest ∧ isOther n = true := by
  obtain ⟨names, hplace, hget, hfile, hsteps⟩ := (Node.mem_filesAt hallowed.distinct).mp hf
  obtain rfl : f.1 = names := hplace
  refine ⟨hget, hfile, hallowed.of_get? hget, ?_⟩
  cases hnames : f.1 with
  | nil =>
    rw [hnames, Node.get?, Option.some.injEq] at hget
    rw [← hget] at hfile
    cases hfile
  | cons n rest =>
    refine ⟨n, rest, rfl, ?_⟩
    rw [hnames, Node.get?_cons, Option.bind_eq_some_iff] at hget
    obtain ⟨below, hl, -⟩ := hget
    have hopen := hsteps [n] rest below hnames (by rw [Node.get?_singleton, hl])
    rw [List.nil_append] at hopen
    by_contra hown
    rw [l.looksAt_own (by simpa using hown)] at hopen
    cases hopen

/-- No file below a directory that some findings are about has a backslash in its path. -/
def PlainlyNamed (dir : Node) (findings : List Finding) : Prop :=
  ∀ names bytes, dir.get? names = some (.file bytes false) → ∀ f ∈ findings,
    f.location = .file (NativeCodePolicy.shownPath ⟨Path.joinNames names⟩) →
    ∀ n ∈ names, Path.backslash ∉ n

namespace OwnChange

variable {t₀ t : FileTree} {place : List Name} {entries₀ entries : List (Name × Node)} {closed : Bool}

theorem filesAt_eq (h : OwnChange t₀ place entries₀ t entries closed) (l : ProjectLayout) :
    (Node.dir entries closed).filesAt (looksAt l.keeps l.root) [] =
      (Node.dir entries₀ closed).filesAt (looksAt l.keeps l.root) [] := by
  have hshut (es : List (Name × Node)) : ∀ e ∈ es, isOther e.1 = false →
      looksAt l.keeps l.root ([] ++ [e.1]) e.2 = false :=
    fun e _ he => l.looksAt_own he e.2
  rw [Node.filesAt, Node.filesAt, filesAmong_filter (hshut entries), filesAmong_filter (hshut entries₀),
    h.others]
  rfl

theorem lookup_eq (h : OwnChange t₀ place entries₀ t entries closed) {n : Name} (hn : isOther n = true) :
    entries.lookup n = entries₀.lookup n := by
  rw [← lookup_filter hn entries, h.others, lookup_filter hn]

/-- Names that do not start with that of an own directory lead to the same. -/
theorem node_eq (h : OwnChange t₀ place entries₀ t entries closed)
    (h₀ : t₀.Holds place entries₀ closed) {n : Name} {rest : List Name} (hn : isOther n = true)
    (hplain : ∀ m ∈ n :: rest, m.Plain) (hnul : ∀ m ∈ n :: rest, Symbol.char '\x00' ∉ m) (aim : Aim) :
    t.node aim (FileTree.absolute (place ++ n :: rest)) =
      t₀.node aim (FileTree.absolute (place ++ n :: rest)) := by
  rw [FileTree.node, FileTree.node, h.holds.spot_absolute hplain hnul, h₀.spot_absolute hplain hnul,
    Node.reach, Node.reach, h.lookup_eq hn]

/-- An audited file is reported alike. -/
theorem checkFile?_eq (h : OwnChange t₀ place entries₀ t entries closed)
    (h₀ : t₀.Holds place entries₀ closed) (hallowed : (Node.dir entries₀ closed).Allowed)
    (policy : NativeCodePolicy) {l : ProjectLayout} (hl : l.root = FileTree.absolute place)
    {f : List Name × Node}
    (hf : f ∈ (Node.dir entries₀ closed).filesAt (looksAt l.keeps l.root) []) :
    policy.checkFile? t l.root (l.root.descend f.1) = policy.checkFile? t₀ l.root (l.root.descend f.1) := by
  obtain ⟨-, -, hnames, n, rest, hf, hn⟩ := l.of_mem_filesAt hallowed hf
  have hplain : ∀ m ∈ f.1, m.Plain := fun m hm => (hnames m hm).toPlain
  have hnode : t.node .target (l.root.descend f.1) = t₀.node .target (l.root.descend f.1) := by
    rw [hl, ← FileTree.absolute_append h₀.plain hplain, hf]
    rw [hf] at hplain hnames
    exact h.node_eq h₀ hn hplain (fun m hm => (hnames m hm).no_nul) .target
  simp only [NativeCodePolicy.checkFile?, FileTree.readPrefix?, hnode]

/-- The audit of a project by its name alone, as it is in a tree. -/
def plainAudit (place : List Name) (t : FileTree) (name time : String) : AuditReport :=
  (Project.audit ⟨⟨FileTree.absolute place⟩, .ofName name⟩ .standard t none time).1

/-- An audit counts and finds the same, whatever the name of the project and the time. -/
theorem audit_eq (h : OwnChange t₀ place entries₀ t entries closed)
    (h₀ : t₀.Holds place entries₀ closed) (hallowed : (Node.dir entries₀ closed).Allowed)
    (hshort : FileTree.byteCount (FileTree.absolute place).symbols ≤ maxPathBytes)
    (name time : String) :
    (plainAudit place t name time).stats = (plainAudit place t₀ "" "").stats ∧
      (plainAudit place t name time).findings = (plainAudit place t₀ "" "").findings := by
  obtain ⟨hcount, hfindings⟩ := @Project.scanFiles_eq ⟨⟨FileTree.absolute place⟩, .ofName name⟩ t entries
    closed rfl (h.holds.node_absolute hshort)
  obtain ⟨hcount₀, hfindings₀⟩ := @Project.scanFiles_eq ⟨⟨FileTree.absolute place⟩, .ofName ""⟩ t₀ entries₀
    closed rfl (h₀.node_absolute hshort)
  have hfiles := h.filesAt_eq ⟨FileTree.absolute place⟩
  have hsame : (Project.scanFiles ⟨⟨FileTree.absolute place⟩, .ofName name⟩ .standard t).findings =
      (Project.scanFiles ⟨⟨FileTree.absolute place⟩, .ofName ""⟩ .standard t₀).findings := by
    rw [hfindings, hfindings₀, hfiles]
    refine List.flatMap_congr fun f hf => ?_
    rw [RuleSet.checkFile_standard, RuleSet.checkFile_standard]
    exact congrArg Option.toList (h.checkFile?_eq h₀ hallowed _ rfl hf)
  constructor
  · simp only [plainAudit, Project.audit, hcount, hcount₀, hfiles, hsame]
    rfl
  · simp only [plainAudit, Project.audit, hsame]
    rfl

/-! ## Digests -/

theorem isOther_shown {n : Name} (h : isOther n = true) : isOther n.shown = true := by
  rw [isOther, Bool.and_eq_true, bne_iff_ne, bne_iff_ne] at h ⊢
  exact ⟨fun e => h.1 (Name.eq_of_shown e (by decide)), fun e => h.2 (Name.eq_of_shown e (by decide))⟩

/-- A finding of an audit is located at the path of an audited file, as it is shown. -/
theorem location_of_mem_plainAudit (h₀ : t₀.Holds place entries₀ closed)
    (hallowed : (Node.dir entries₀ closed).Allowed)
    (hshort : FileTree.byteCount (FileTree.absolute place).symbols ≤ maxPathBytes) {name time : String}
    {f : Finding} (hf : f ∈ (plainAudit place t₀ name time).findings) :
    ∃ n rest bytes, (Node.dir entries₀ closed).get? (n :: rest) = some (.file bytes false) ∧
      (∀ m ∈ n :: rest, m.Allowed) ∧ isOther n = true ∧
      f.location = .file (NativeCodePolicy.shownPath ⟨Path.joinNames (n :: rest)⟩) := by
  obtain ⟨g, hg, -, rfl⟩ := ProjectConfig.mem_keep.mp hf
  have hg : g ∈ (Project.scanFiles ⟨⟨FileTree.absolute place⟩, .ofName name⟩ .standard t₀).findings := hg
  have hroot := @FileTree.Holds.node_absolute t₀ place entries₀ closed .target h₀ hshort
  rw [(@Project.scanFiles_eq ⟨⟨FileTree.absolute place⟩, .ofName name⟩ t₀ entries₀ closed rfl hroot).2,
    List.mem_flatMap] at hg
  obtain ⟨⟨names, file⟩, hmet, hg⟩ := hg
  obtain ⟨hget, hfile, hnames, n, rest, rfl, hn⟩ := ProjectLayout.of_mem_filesAt _ hallowed hmet
  rw [RuleSet.checkFile_standard, Option.mem_toList,
    NativeCodePolicy.checkFile?_place _ hroot hnames hget hfile] at hg
  split_ifs at hg
  obtain ⟨bytes, hbytes, hclass⟩ := Option.bind_eq_some_iff.mp hg
  obtain ⟨-, -, rfl⟩ := NativeCodePolicy.classify?_eq_some.mp hclass
  exact ⟨n, rest, bytes, by rw [hget, Node.eq_file_of_bytes? hbytes], hnames, hn, rfl⟩

/-- Where no reported file has a backslash in its path, the digests are the same too. -/
theorem attachDigest_eq (h : OwnChange t₀ place entries₀ t entries closed)
    (h₀ : t₀.Holds place entries₀ closed) (hallowed : (Node.dir entries₀ closed).Allowed)
    (hshort : FileTree.byteCount (FileTree.absolute place).symbols ≤ maxPathBytes)
    {name time : String}
    (hclean : PlainlyNamed (.dir entries₀ closed) (plainAudit place t₀ name time).findings)
    {f : Finding} (hf : f ∈ (plainAudit place t₀ name time).findings) :
    f.attachDigest t (FileTree.absolute place) = f.attachDigest t₀ (FileTree.absolute place) := by
  obtain ⟨n, rest, bytes, hget, hnames, hn, hloc⟩ := location_of_mem_plainAudit h₀ hallowed hshort hf
  have hnone := hclean _ _ hget f hf hloc
  refine Finding.attachDigest_congr fun path hpath => ?_
  rw [hloc, Location.file.injEq] at hpath
  have hplain : ∀ m ∈ (n :: rest).map Name.shown, m.Plain := by
    intro m hm
    obtain ⟨k, hk, rfl⟩ := List.mem_map.mp hm
    exact (hnames k hk).toPlain.shown
  have hnul : ∀ m ∈ (n :: rest).map Name.shown, Symbol.char '\x00' ∉ m := by
    intro m hm hs
    obtain ⟨k, hk, rfl⟩ := List.mem_map.mp hm
    exact (hnames k hk).no_nul (Name.mem_of_mem_shown hs (by decide))
  have hjoin : (FileTree.absolute place).join (.ofString path) =
      FileTree.absolute (place ++ (n :: rest).map Name.shown) := by
    rw [← hpath, Path.ofString_shownPath_joinNames hnone,
      Path.join_joinNames _ (by simp) hplain, FileTree.absolute_append h₀.plain hplain]
  have hnode := h.node_eq h₀ (isOther_shown hn) hplain hnul .target
  rw [hjoin, FileTree.digest, FileTree.digest, FileTree.read, FileTree.read]
  rw [List.map_cons, hnode]

/-- The report of an audit that succeeds. -/
theorem report_of_scan {root : String}
    (hroot : t₀.spot .target (.ofString root) = .ok (.taken place (.dir entries₀ closed)))
    {host host' : Host} (h : OwnChange t₀ place entries₀ host.tree entries closed) {json : Bool}
    {report : AuditReport}
    (hs : (Command.scan root none json none).exec host = (.ok report, host')) :
    FileTree.byteCount (FileTree.absolute place).symbols ≤ maxPathBytes ∧
      ∃ name, report = (plainAudit place host.tree name host.time).attest host.tree
        (FileTree.absolute place) := by
  obtain ⟨p, loaded, hp, hu, rfl⟩ := Command.report_of_scan hs
  cases hu
  rw [h.resolveRoot hroot] at hp
  obtain ⟨hlayout, ⟨name, hname⟩, hshort⟩ := h.of_ofRoot hp
  obtain rfl : p = ⟨⟨FileTree.absolute place⟩, .ofName name⟩ := by
    cases p
    simp only at hlayout hname
    rw [hlayout, hname]
  exact ⟨Nat.le_trans (FileTree.byteCount_absolute_append h.holds.plain (by decide)) hshort, name, rfl⟩

end OwnChange

end AndroidAudit
