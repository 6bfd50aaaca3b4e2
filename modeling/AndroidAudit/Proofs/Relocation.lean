import AndroidAudit.Proofs.LinklessTrees
import AndroidAudit.Proofs.Reordering

/-!
# Projects at another root

The names below its root decide what an audit finds in the files of a project: a walk keeps the same
at every root (`ProjectLayout.keeps_relocated`), and what is reported of a file is read off the names
that lead to it from the root (`NativeCodePolicy.checkFile?_place`). So one tree at two roots
gives the same findings and the same count (`scanFiles_relocated`), however the roots are spelled and
whatever they and the directories above them are called.

The host sees whole paths, and takes none of more than `maxPathBytes` bytes. A tree at a root that is
spelled at length may have files that the host does not open there (`scanFiles_out_of_reach`), so the
two roots have to be alike in this.
-/

namespace AndroidAudit

/-! ## What the host reaches -/

/-- The host takes the path of a place below a root. -/
def Path.Reaches (root : Path) (place : List Name) : Prop :=
  FileTree.byteCount (root.descend place).symbols ≤ maxPathBytes

instance (root : Path) (place : List Name) : Decidable (root.Reaches place) :=
  inferInstanceAs (Decidable (_ ≤ _))

/-- The host reaches as much of a file from one root as from the other: it lists its directory from
both or from neither, and so it opens the file. -/
structure SameReach (root root' : Path) (place : List Name) : Prop where
  listed : root.Reaches place.dropLast ↔ root'.Reaches place.dropLast
  opened : root.Reaches place ↔ root'.Reaches place

instance (root root' : Path) (place : List Name) : Decidable (SameReach root root' place) :=
  decidable_of_iff ((root.Reaches place.dropLast ↔ root'.Reaches place.dropLast) ∧
    (root.Reaches place ↔ root'.Reaches place)) ⟨fun h => ⟨h.1, h.2⟩, fun h => ⟨h.listed, h.opened⟩⟩

theorem Path.Reaches.of_append {root : Path} {a b : List Name} (hb : ∀ n ∈ b, n.Plain)
    (h : root.Reaches (a ++ b)) : root.Reaches a := by
  rw [Reaches, descend_append] at h
  exact Nat.le_trans (FileTree.byteCount_descend _ hb) h

/-! ## What a walk meets -/

section

variable (l l' : ProjectLayout) {place : List Name} {dir : Node}

/-- A walk keeps the same at every root. -/
theorem ProjectLayout.keeps_relocated (h : ∀ n ∈ place, n.Plain) (node : Node) :
    l.keeps (.below l.root place node) = l'.keeps (.below l'.root place node) := by
  rw [Bool.eq_iff_iff, l.keeps_below h, l'.keeps_below h]

/-- What is looked at from one root is looked at from every root that reaches it. -/
theorem ProjectLayout.looksAt_relocated (h : ∀ n ∈ place, n.Plain) {node : Node}
    (hlooks : looksAt l.keeps l.root place node = true)
    (hreach : node.isDir = true → l'.root.Reaches place) :
    looksAt l'.keeps l'.root place node = true := by
  obtain ⟨hkeeps, hlisted⟩ := looksAt_iff.mp hlooks
  exact looksAt_iff.mpr ⟨by rw [← l.keeps_relocated l' h, hkeeps],
    fun hdir => ⟨(hlisted hdir).1, hreach hdir⟩⟩

variable {l l'}

/-- A file that is met from one root is met from every other that reaches its directory. -/
theorem mem_filesAt_relocated (hdir : dir.isDir = true) (hallowed : dir.Allowed) {f : List Name × Node}
    (hreach : dir.get? f.1 = some f.2 → f.2.isFile = true →
      l.root.Reaches f.1.dropLast → l'.root.Reaches f.1.dropLast)
    (hf : f ∈ dir.filesAt (looksAt l.keeps l.root) []) :
    f ∈ dir.filesAt (looksAt l'.keeps l'.root) [] := by
  obtain ⟨place, file⟩ := f
  obtain ⟨names, hplace, hget, hfile, hsteps⟩ := (Node.mem_filesAt hallowed.distinct).mp hf
  obtain rfl : place = names := hplace
  have hplain : ∀ n ∈ place, n.Plain := fun n hn => (hallowed.of_get? hget n hn).toPlain
  have hne : place ≠ [] := by
    rintro rfl
    rw [Node.get?, Option.some.injEq] at hget
    rw [hget, Node.isDir_of_isFile hfile] at hdir
    cases hdir
  have hlast : place = place.dropLast ++ [place.getLast hne] := (List.dropLast_append_getLast hne).symm
  have habove : l'.root.Reaches place.dropLast := by
    have hfound := hget
    rw [hlast] at hfound
    obtain ⟨es, closed, habove⟩ := Node.dir_of_get?_append hfound (by simp)
    exact hreach hget hfile ((looksAt_iff.mp (hsteps _ _ _ hlast habove)).2 rfl).2
  refine (Node.mem_filesAt hallowed.distinct).mpr ⟨place, rfl, hget, hfile, fun a b m e hm => ?_⟩
  have ha : ∀ n ∈ a, n.Plain := fun n hn => hplain n (e ▸ List.mem_append_left _ hn)
  refine l.looksAt_relocated l' ha (hsteps a b m e hm) fun hisDir => ?_
  -- a directory on the way is the file's own or above it
  have hb : b ≠ [] := by
    rintro rfl
    rw [List.append_nil] at e
    rw [← e, hget, Option.some.injEq] at hm
    rw [← hm, Node.isDir_of_isFile hfile] at hisDir
    cases hisDir
  rw [e, List.dropLast_append_of_ne_nil hb] at habove
  refine habove.of_append fun n hn => hplain n ?_
  rw [e]
  exact List.mem_append_right _ (List.dropLast_subset _ hn)

variable (l l') in
theorem filesAt_perm_relocated (hdir : dir.isDir = true) (hallowed : dir.Allowed)
    (hreach : ∀ place file, dir.get? place = some file → file.isFile = true →
      SameReach l.root l'.root place) :
    (dir.filesAt (looksAt l.keeps l.root) []).Perm (dir.filesAt (looksAt l'.keeps l'.root) []) := by
  rw [List.perm_ext_iff_of_nodup (Node.nodup_filesAt hallowed.distinct).of_map
    (Node.nodup_filesAt hallowed.distinct).of_map]
  exact fun f => ⟨mem_filesAt_relocated hdir hallowed fun hget hf => (hreach _ _ hget hf).listed.mp,
    mem_filesAt_relocated hdir hallowed fun hget hf => (hreach _ _ hget hf).listed.mpr⟩

end

/-! ## What is reported -/

/-- One tree at two roots, perhaps with its entries in another order, gives the same count of files and
the same findings, if the host reaches as much of each file from one root as from the other. -/
theorem scanFiles_relocated (c : ProjectConfig) (t t' : FileTree) (root root' : Path) (dir dir' : Node)
    (hroot : t.node .target root = .ok dir) (hroot' : t'.node .target root' = .ok dir')
    (hdir : dir.isDir = true) (hallowed : dir.Allowed) (hsame : dir.Reordered dir')
    (hreach : ∀ place file, dir.get? place = some file → file.isFile = true →
      SameReach root root' place) :
    let scan := Project.scanFiles ⟨⟨root⟩, c⟩ .standard t
    let scan' := Project.scanFiles ⟨⟨root'⟩, c⟩ .standard t'
    scan.count = scan'.count ∧ scan.findings.Perm scan'.findings := by
  intro scan scan'
  cases hreport : c.reportIssues with
  | false => simp [scan, scan', Project.scanFiles, hreport]
  | true =>
    obtain ⟨entries, closed, rfl⟩ := Node.eq_dir_of_isDir hdir
    have halike := hsame.alike hallowed.distinct
    have hself : (Node.dir entries closed).get? [] = some (.dir entries closed) := rfl
    obtain ⟨_, hfound, hbare, -⟩ := halike.get? hself
    obtain rfl := Option.some.inj hfound
    obtain ⟨entries', rfl⟩ := Node.eq_dir_of_bare hbare.symm
    obtain ⟨hcount, hfindings⟩ := Project.scanFiles_eq (p := ⟨⟨root⟩, c⟩) hreport hroot
    obtain ⟨hcount', hfindings'⟩ := Project.scanFiles_eq (p := ⟨⟨root'⟩, c⟩) hreport hroot'
    have hmet := (filesAt_perm_relocated ⟨root⟩ ⟨root'⟩ hdir hallowed hreach).trans
      (halike.filesAt_perm hallowed.distinct (hsame.distinct hallowed.distinct)
        (fun place m m' => ProjectLayout.looksAt_bare ⟨root'⟩ place) [])
    refine ⟨by rw [hcount, hcount', hmet.length_eq], ?_⟩
    rw [hfindings, hfindings']
    refine (hmet.flatMap_right _).trans (.of_eq (List.flatMap_congr fun f hf => ?_))
    obtain ⟨place, hplace, hget, hfile, -⟩ :=
      (Node.mem_filesAt hallowed.distinct).mp (hmet.mem_iff.mpr hf)
    obtain rfl : f.1 = place := hplace
    have hnames := hallowed.of_get? hget
    have hget' : (Node.dir entries' closed).get? f.1 = some f.2 := by
      obtain ⟨m, hm, hbare, -⟩ := halike.get? hget
      rw [hm, Node.eq_of_bare_of_isDir hbare (Node.isDir_of_isFile hfile)]
    rw [RuleSet.checkFile_standard, RuleSet.checkFile_standard,
      c.nativeCode.checkFile?_place hroot hnames hget hfile,
      c.nativeCode.checkFile?_place hroot' hnames hget' hfile]
    exact congrArg Option.toList (if_congr (hreach f.1 f.2 hget hfile).opened rfl rfl)

/-- Native code in the project, of which the file `main` is in no content root of it. -/
def movedEntries : List (Name × Node) :=
  (Name.ofString "main", .file [0x7F, 0x45, 0x4C, 0x46] false) :: resources "libx.so" false

theorem allowed_movedEntries : (Node.dir movedEntries false).Allowed := by
  have hnames : ∀ n ∈ ["main", "res", "libx.so"], (Name.ofString n).Allowed := by decide
  have hne : Name.ofString "main" ≠ Name.ofString "res" := by decide
  simp only [List.forall_mem_cons] at hnames
  simp only [movedEntries, resources, Node.Allowed, Node.EveryDir, everyDirAmong, List.forall_mem_cons]
  simp [hnames, hne]

theorem linkless_movedEntries :
    (Node.dir movedEntries false).Linkless ∧ (Node.dir movedEntries.reverse false).Linkless := by
  simp [movedEntries, resources, Node.Linkless, Node.EveryDir, everyDirAmong]

/-- A project below a content root and in a hidden directory, under names that are skipped below a
root. -/
theorem scanFiles_relocated_named :
    let c := ProjectConfig.ofName "demo"
    let t : FileTree := ⟨.dir
      [ (Name.ofString "res", .dir [(Name.ofString "build", .dir movedEntries false)] false),
        (Name.ofString ".cache", .dir [(Name.ofString "reports", .dir movedEntries.reverse false)] false) ]
      false, []⟩
    let root := Path.ofString "/res/build"
    let root' := Path.ofString "/.cache/reports"
    let scan := Project.scanFiles ⟨⟨root⟩, c⟩ .standard t
    let scan' := Project.scanFiles ⟨⟨root'⟩, c⟩ .standard t
    t.node .target root = .ok (.dir movedEntries false) ∧
      t.node .target root' = .ok (.dir movedEntries.reverse false) ∧
      (Node.dir movedEntries false).isDir = true ∧ (Node.dir movedEntries false).Allowed ∧
      (Node.dir movedEntries false).Reordered (.dir movedEntries.reverse false) ∧
      (∀ place file, (Node.dir movedEntries false).get? place = some file → file.isFile = true →
        SameReach root root' place) ∧
      scan.count = scan'.count ∧ scan.findings.Perm scan'.findings ∧
      nativeFinding ["res", "libx.so"] ∈ scan.findings := by
  intro c t root root' scan scan'
  have hplace : t.Holds [Name.ofString "res", Name.ofString "build"] movedEntries false :=
    ⟨by rfl, by decide, linkless_movedEntries.1⟩
  have hplace' : t.Holds [Name.ofString ".cache", Name.ofString "reports"] movedEntries.reverse false :=
    ⟨by rfl, by decide, linkless_movedEntries.2⟩
  have hroot : t.node .target root = .ok (.dir movedEntries false) := hplace.node_absolute (by decide)
  have hroot' : t.node .target root' = .ok (.dir movedEntries.reverse false) :=
    hplace'.node_absolute (by decide)
  have hallowed := allowed_movedEntries
  have hsame : (Node.dir movedEntries false).Reordered (.dir movedEntries.reverse false) :=
    .perm (List.reverse_perm _).symm
  have hreach : ∀ place file, (Node.dir movedEntries false).get? place = some file →
      file.isFile = true → SameReach root root' place := by
    intro place file hget hfile
    have hall : ∀ f ∈ (Node.dir movedEntries false).filesAt (fun _ _ => true) [],
        SameReach root root' f.1 := by
      decide
    exact hall (place, file)
      ((Node.mem_filesAt hallowed.distinct).mpr ⟨place, rfl, hget, hfile, by simp⟩)
  obtain ⟨hcount, hperm⟩ :=
    scanFiles_relocated c t t root root' _ _ hroot hroot' rfl hallowed hsame hreach
  refine ⟨hroot, hroot', rfl, hallowed, hsame, hreach, hcount, hperm, ?_⟩
  exact nativeFinding_mem_scanFiles rfl hroot hallowed
    { found := by rfl
      isFile := rfl
      visible := by simp [SkippedDir]
      not_meta := by simp
      not_reports := by simp
      listed := by
        intro above habove
        obtain rfl | rfl : above = [] ∨ above = ["res"] := by simpa [List.prefix_cons_iff] using habove
        · exact ⟨_, rfl⟩
        · exact ⟨_, rfl⟩
      reached := by decide }
    ⟨standard_content _, standard_native [], by decide⟩

/-- One project at two spellings of one root: from the longer the host opens nothing in it. -/
theorem scanFiles_out_of_reach :
    let c := ProjectConfig.ofName "demo"
    let dir := resourceTree (letters 200)
    let t : FileTree := ⟨.dir [(Name.ofString "w", dir)] false, [Name.ofString "w"]⟩
    let root : Path := ⟨dots 0⟩
    let root' : Path := ⟨dots 2000⟩
    t.node .target root = .ok dir ∧ t.node .target root' = .ok dir ∧ dir.Legal ∧
      ¬ (Project.scanFiles ⟨⟨root⟩, c⟩ .standard t).findings.Perm
        (Project.scanFiles ⟨⟨root'⟩, c⟩ .standard t).findings := by
  intro c dir t root root'
  have hcwd : t.root.get? t.cwd = some dir := by simp [t, Node.get?, Node.child?]
  have hlegal : dir.Legal := legal_resourceTree (legal_letters (by decide) (by decide))
  have hroot : t.node .target root = .ok dir := FileTree.node_dots hcwd (by decide)
  refine ⟨hroot, FileTree.node_dots hcwd (by decide), hlegal, fun hperm => ?_⟩
  obtain ⟨-, -, hnone⟩ := scanFiles_dots (p := ⟨⟨root'⟩, c⟩) rfl rfl hcwd
    (by decide) (by decide) (by decide) (by decide)
  have hopened : root.Reaches (placeOf ["res", letters 200]) := by
    rw [Path.Reaches, byteCount_dots_res_letters (by decide) (by decide)]
    decide
  have hfound := nativeFinding_mem_scanFiles (p := ⟨⟨root⟩, c⟩) rfl hroot hlegal.allowed
    (audited_resourceTree (by rw [byteCount_dots_res]; decide))
    ⟨standard_content _, standard_native [], hopened⟩
  rw [hperm.mem_iff, hnone] at hfound
  cases hfound

end AndroidAudit
