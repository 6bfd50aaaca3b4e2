import Mathlib.Data.List.Nodup
import AndroidAudit.FileTree.Walk
import AndroidAudit.Proofs.TreeLookup

/-!
# The files that a walk meets

A walk goes from path to path. `Node.filesAt` tells the same files by the names that lead to them from
the root of the walk (`walkedFiles_visits`). In a tree whose directories have no name twice these are
the files that stand at a place to which every step is open (`Node.mem_filesAt`), and each is met once
(`Node.nodup_filesAt`).
-/

namespace AndroidAudit

/-! ## Trees -/

/-- What holds of files and links, and of a directory if it holds of its entries, holds of every
node. -/
theorem Node.induction {P : Node → Prop} (file : ∀ bytes closed, P (.file bytes closed))
    (link : ∀ target, P (.link target))
    (dir : ∀ entries closed, (∀ e ∈ entries, P e.2) → P (.dir entries closed)) (node : Node) : P node :=
  match node with
  | .file bytes closed => file bytes closed
  | .link target => link target
  | .dir entries closed => dir entries closed (among entries)
where
  /-- The same of each of some entries. -/
  among : ∀ (entries : List (Name × Node)), ∀ e ∈ entries, P e.2
    | [], _, h => nomatch h
    | (_, node) :: rest, e, h => by
      rcases List.mem_cons.mp h with rfl | h
      · exact Node.induction file link dir node
      · exact among rest e h

mutual

/-- The entries of each directory at or below a node satisfy `P`. -/
def Node.EveryDir (P : List (Name × Node) → Prop) : Node → Prop
  | .dir entries _ => P entries ∧ everyDirAmong P entries
  | _ => True

/-- The entries of each directory among some entries, or below them, satisfy `P`. -/
def everyDirAmong (P : List (Name × Node) → Prop) : List (Name × Node) → Prop
  | [] => True
  | (_, node) :: rest => node.EveryDir P ∧ everyDirAmong P rest

end

theorem everyDirAmong_iff {P : List (Name × Node) → Prop} {entries : List (Name × Node)} :
    everyDirAmong P entries ↔ ∀ e ∈ entries, e.2.EveryDir P := by
  induction entries with
  | nil => simp [everyDirAmong]
  | cons e rest ih => simp [everyDirAmong, ih]

theorem Node.everyDir_dir {P : List (Name × Node) → Prop} {entries : List (Name × Node)}
    {closed : Bool} : (Node.dir entries closed).EveryDir P ↔ P entries ∧ ∀ e ∈ entries, e.2.EveryDir P := by
  rw [EveryDir, everyDirAmong_iff]

/-- No directory has two entries of one name. -/
def Node.Distinct (node : Node) : Prop := node.EveryDir fun entries => (entries.map (·.1)).Nodup

/-- A tree as a host keeps it: no directory has two entries of one name, and the names are ones that
the host allows. -/
def Node.Legal (node : Node) : Prop :=
  node.EveryDir fun entries => (entries.map (·.1)).Nodup ∧ ∀ e ∈ entries, e.1.Legal

theorem Node.EveryDir.imp {P Q : List (Name × Node) → Prop} (h : ∀ entries, P entries → Q entries)
    {node : Node} (hp : node.EveryDir P) : node.EveryDir Q := by
  induction node using Node.induction with
  | file bytes closed => trivial
  | link target => trivial
  | dir entries closed ih =>
    rw [everyDir_dir] at hp ⊢
    exact ⟨h entries hp.1, fun e he => ih e he (hp.2 e he)⟩

/-- A tree as a host keeps it whose names need not be text. -/
def Node.Allowed (node : Node) : Prop :=
  node.EveryDir fun entries => (entries.map (·.1)).Nodup ∧ ∀ e ∈ entries, e.1.Allowed

theorem Node.Legal.allowed {node : Node} (h : node.Legal) : node.Allowed :=
  Node.EveryDir.imp (fun _ hp => ⟨hp.1, fun e he => (hp.2 e he).allowed⟩) h

theorem Node.Allowed.distinct {node : Node} (h : node.Allowed) : node.Distinct :=
  Node.EveryDir.imp (fun _ hp => hp.1) h

theorem Node.Legal.distinct {node : Node} (h : node.Legal) : node.Distinct := h.allowed.distinct

theorem mem_of_lookup {entries : List (Name × Node)} {n : Name} {node : Node}
    (h : entries.lookup n = some node) : (n, node) ∈ entries := by
  obtain ⟨before, after, rfl, -⟩ := List.lookup_eq_some_iff.mp h
  simp

/-- Where no name is there twice, an entry is found by its name. -/
theorem lookup_eq_some_iff {entries : List (Name × Node)} (h : (entries.map (·.1)).Nodup) {n : Name}
    {node : Node} : entries.lookup n = some node ↔ (n, node) ∈ entries := by
  induction entries with
  | nil => simp
  | cons e rest ih =>
    rw [List.map_cons, List.nodup_cons] at h
    obtain ⟨m, other⟩ := e
    by_cases hm : n = m
    · subst hm
      have hnot : (n, node) ∉ rest := fun hr => h.1 (List.mem_map_of_mem (f := (·.1)) hr)
      simp [hnot, eq_comm]
    · have hb : (n == m) = false := by simpa using hm
      rw [List.lookup_cons, hb, List.mem_cons, Prod.mk.injEq]
      simp [hm, ih h.2]

theorem Node.get?_cons_eq_some_iff {entries : List (Name × Node)} {closed : Bool}
    (h : (entries.map (·.1)).Nodup) {n : Name} {place : List Name} {node : Node} :
    (Node.dir entries closed).get? (n :: place) = some node ↔
      ∃ below, (n, below) ∈ entries ∧ below.get? place = some node := by
  rw [get?_cons, Option.bind_eq_some_iff]
  exact exists_congr fun below => and_congr_left' (lookup_eq_some_iff h)

/-- What holds of each entry's name holds of the names that lead to something. -/
theorem Node.EveryDir.of_get? {P : List (Name × Node) → Prop} {Q : Name → Prop}
    (hQ : ∀ entries, P entries → ∀ e ∈ entries, Q e.1) {node m : Node} {place : List Name}
    (h : node.EveryDir P) (hget : node.get? place = some m) : ∀ n ∈ place, Q n := by
  induction place generalizing node with
  | nil => simp
  | cons n place ih =>
    obtain ⟨entries, closed, below, rfl, hl, hget⟩ := dir_of_get?_cons hget
    obtain ⟨hentries, hbelow⟩ := everyDir_dir.mp h
    have hmem := mem_of_lookup hl
    exact List.forall_mem_cons.mpr ⟨hQ entries hentries _ hmem, ih (hbelow _ hmem) hget⟩

/-- What holds of every directory holds of those below a place. -/
theorem Node.EveryDir.get? {P : List (Name × Node) → Prop} {node m : Node} {place : List Name}
    (h : node.EveryDir P) (hget : node.get? place = some m) : m.EveryDir P := by
  induction place generalizing node with
  | nil =>
    rw [Node.get?, Option.some.injEq] at hget
    rwa [← hget]
  | cons n place ih =>
    obtain ⟨entries, closed, below, rfl, hl, hget⟩ := dir_of_get?_cons hget
    exact ih ((everyDir_dir.mp h).2 _ (mem_of_lookup hl)) hget

theorem Node.Legal.of_get? {node m : Node} {place : List Name} (h : node.Legal)
    (hget : node.get? place = some m) : ∀ n ∈ place, n.Legal :=
  Node.EveryDir.of_get? (fun _ hp => hp.2) h hget

theorem Node.Allowed.of_get? {node m : Node} {place : List Name} (h : node.Allowed)
    (hget : node.get? place = some m) : ∀ n ∈ place, n.Allowed :=
  Node.EveryDir.of_get? (fun _ hp => hp.2) h hget

/-! ## Walks by place -/

mutual

/-- The files at and below a node that stands at a place, each with its place. What is not open is left
out with all below it. -/
def Node.filesAt (isOpen : List Name → Node → Bool) (place : List Name) :
    Node → List (List Name × Node)
  | .file bytes closed =>
    if isOpen place (.file bytes closed) then [(place, .file bytes closed)] else []
  | .link _ => []
  | .dir entries closed =>
    if isOpen place (.dir entries closed) then filesAmong isOpen place entries else []

/-- The files among some entries of a directory at a place, and below them. -/
def filesAmong (isOpen : List Name → Node → Bool) (place : List Name) :
    List (Name × Node) → List (List Name × Node)
  | [] => []
  | (n, node) :: rest => node.filesAt isOpen (place ++ [n]) ++ filesAmong isOpen place rest

end

variable {isOpen : List Name → Node → Bool} {place : List Name} {f : List Name × Node}

theorem mem_filesAmong {entries : List (Name × Node)} :
    f ∈ filesAmong isOpen place entries ↔
      ∃ e ∈ entries, f ∈ e.2.filesAt isOpen (place ++ [e.1]) := by
  induction entries with
  | nil => simp [filesAmong]
  | cons e rest ih => simp [filesAmong, ih]

/-- The files met at a node are those at a place to which each step is open. -/
theorem Node.mem_filesAt {node : Node} (hd : node.Distinct) :
    f ∈ node.filesAt isOpen place ↔ ∃ names, f.1 = place ++ names ∧
      node.get? names = some f.2 ∧ f.2.isFile = true ∧
      ∀ a b m, names = a ++ b → node.get? a = some m → isOpen (place ++ a) m = true := by
  induction node using Node.induction generalizing place with
  | file bytes closed =>
    rw [filesAt]
    constructor
    · intro hf
      obtain ⟨hopen, rfl⟩ := (List.mem_ite_nil_right.mp hf).imp_right List.mem_singleton.mp
      refine ⟨[], by simp, rfl, rfl, fun a b m hab hm => ?_⟩
      obtain ⟨rfl, rfl⟩ := List.append_eq_nil_iff.mp hab.symm
      rw [get?, Option.some.injEq] at hm
      rwa [← hm, List.append_nil]
    · rintro ⟨names, hplace, hget, -, hsteps⟩
      cases names with
      | nil =>
        have hopen := hsteps [] [] _ rfl rfl
        rw [get?, Option.some.injEq] at hget
        rw [List.append_nil] at hplace hopen
        rw [if_pos hopen, List.mem_singleton, hget, ← hplace]
      | cons n names => cases hget
  | link target =>
    simp only [filesAt, List.not_mem_nil, false_iff, not_exists, not_and]
    rintro (_ | ⟨n, names⟩) - hget hfile
    · rw [get?, Option.some.injEq] at hget
      rw [← hget] at hfile
      cases hfile
    · cases hget
  | dir entries closed ih =>
    obtain ⟨hnames, hbelow⟩ := everyDir_dir.mp hd
    rw [filesAt, List.mem_ite_nil_right, mem_filesAmong]
    constructor
    · rintro ⟨hopen, ⟨n, node⟩, he, hf⟩
      obtain ⟨names, hplace, hget, hfile, hsteps⟩ := (ih _ he (hbelow _ he)).mp hf
      refine ⟨n :: names, by simpa using hplace, ?_, hfile, ?_⟩
      · exact (get?_cons_eq_some_iff hnames).mpr ⟨node, he, hget⟩
      · intro a b m hab hm
        cases a with
        | nil =>
          rw [get?, Option.some.injEq] at hm
          rwa [← hm, List.append_nil]
        | cons x a =>
          obtain ⟨rfl, htail⟩ := List.cons.inj hab
          obtain ⟨below, hb, hbm⟩ := (get?_cons_eq_some_iff hnames).mp hm
          rw [← lookup_eq_some_iff hnames, (lookup_eq_some_iff hnames).mpr he,
            Option.some.injEq] at hb
          subst hb
          simpa using hsteps a b m htail hbm
    · rintro ⟨names, hplace, hget, hfile, hsteps⟩
      refine ⟨by simpa using hsteps [] names _ rfl rfl, ?_⟩
      cases names with
      | nil =>
        rw [get?, Option.some.injEq] at hget
        rw [← hget] at hfile
        cases hfile
      | cons n names =>
        obtain ⟨below, hb, hbm⟩ := (get?_cons_eq_some_iff hnames).mp hget
        refine ⟨(n, below), hb,
          (ih _ hb (hbelow _ hb)).mpr ⟨names, by simpa using hplace, hbm, hfile, ?_⟩⟩
        intro a b m hab hm
        have hstep := hsteps (n :: a) b m (by rw [hab]; rfl)
          ((get?_cons_eq_some_iff hnames).mpr ⟨below, hb, hm⟩)
        simpa using hstep

/-- Files of two entries differ in the name below the place. -/
theorem nodup_filesAmong {entries : List (Name × Node)} (hnames : (entries.map (·.1)).Nodup)
    (hbelow : ∀ e ∈ entries, e.2.Distinct)
    (h : ∀ e ∈ entries, ((e.2.filesAt isOpen (place ++ [e.1])).map (·.1)).Nodup) :
    ((filesAmong isOpen place entries).map (·.1)).Nodup := by
  induction entries with
  | nil => simp [filesAmong]
  | cons e rest ih =>
    obtain ⟨hnot, hrest⟩ := List.nodup_cons.mp hnames
    obtain ⟨hbhead, hbtail⟩ := List.forall_mem_cons.mp hbelow
    obtain ⟨hhead, htail⟩ := List.forall_mem_cons.mp h
    rw [filesAmong, List.map_append, List.nodup_append]
    refine ⟨hhead, ih hrest hbtail htail, ?_⟩
    rintro _ ha _ hb rfl
    obtain ⟨f, hf, hfa⟩ := List.mem_map.mp ha
    obtain ⟨g, hg, hga⟩ := List.mem_map.mp hb
    obtain ⟨d, hd, hgd⟩ := mem_filesAmong.mp hg
    obtain ⟨names, hfn, -⟩ := (Node.mem_filesAt hbhead).mp hf
    obtain ⟨others, hgn, -⟩ := (Node.mem_filesAt (hbtail d hd)).mp hgd
    have hsame : place ++ ([e.1] ++ names) = place ++ ([d.1] ++ others) := by
      rw [← List.append_assoc, ← List.append_assoc, ← hfn, ← hgn, hfa, hga]
    have hname : e.1 = d.1 := (List.cons.inj (List.append_cancel_left hsame)).1
    exact hnot (List.mem_map.mpr ⟨d, hd, hname.symm⟩)

/-- No file is met twice. -/
theorem Node.nodup_filesAt {node : Node} (hd : node.Distinct) :
    ((node.filesAt isOpen place).map (·.1)).Nodup := by
  induction node using Node.induction generalizing place with
  | file bytes closed => rw [filesAt]; split <;> simp
  | link target => simp [filesAt]
  | dir entries closed ih =>
    obtain ⟨hnames, hbelow⟩ := everyDir_dir.mp hd
    rw [filesAt]
    split
    · exact nodup_filesAmong hnames hbelow fun e he => ih e he (hbelow e he)
    · exact List.nodup_nil

/-! ## Walks by path -/

/-- The files among what a walk met. -/
def walkedFiles (met : List (Except WalkFault Visit)) : List Visit :=
  (met.filterMap Except.toOption).filter (·.node.isFile)

theorem walkedFiles_append (met more : List (Except WalkFault Visit)) :
    walkedFiles (met ++ more) = walkedFiles met ++ walkedFiles more := by
  simp [walkedFiles]

theorem walkedFiles_ok_cons (v : Visit) (met : List (Except WalkFault Visit)) :
    walkedFiles (.ok v :: met) = (if v.node.isFile then [v] else []) ++ walkedFiles met := by
  show List.filter (·.node.isFile) (v :: met.filterMap Except.toOption) = _
  rw [List.filter_cons]
  split <;> rfl

/-- The visit of what stands at a place below the root of a walk. -/
def Visit.below (root : Path) (place : List Name) (node : Node) : Visit :=
  ⟨root.descend place, place.length, node⟩

/-- Whether a host refuses to give out what a node holds. -/
def Node.isClosed : Node → Bool
  | .file _ closed => closed
  | .link _ => false
  | .dir _ closed => closed

/-- Whether a walk looks at what stands at a place: it keeps it and, if it is a directory, can list
it. -/
def looksAt (keep : Visit → Bool) (root : Path) (place : List Name) (node : Node) : Bool :=
  keep (.below root place node) && (!node.isDir ||
    (!node.isClosed && FileTree.byteCount (root.descend place).symbols ≤ maxPathBytes))

theorem looksAt_iff {keep : Visit → Bool} {root : Path} {place : List Name} {node : Node} :
    looksAt keep root place node = true ↔ keep (.below root place node) = true ∧
      (node.isDir = true → node.isClosed = false ∧
        FileTree.byteCount (root.descend place).symbols ≤ maxPathBytes) := by
  rw [looksAt, Bool.and_eq_true]
  cases node.isDir <;> simp

theorem Visit.below_concat (root : Path) (place : List Name) (n : Name) (node : Node) :
    Visit.below root (place ++ [n]) node = ⟨(root.descend place).child n, place.length + 1, node⟩ := by
  simp [below, Path.descend_append]

section

variable {keep : Visit → Bool} {root : Path}

theorem walkedFiles_visitsAmong {entries : List (Name × Node)}
    (h : ∀ e ∈ entries, ∀ at', keep (.below root at' e.2) = true →
      (if e.2.isFile then [Visit.below root at' e.2] else []) ++
          walkedFiles (e.2.visits keep (root.descend at') at'.length) =
        (e.2.filesAt (looksAt keep root) at').map fun f => .below root f.1 f.2) :
    walkedFiles (visitsAmong keep (root.descend place) place.length entries) =
      (filesAmong (looksAt keep root) place entries).map fun f => .below root f.1 f.2 := by
  induction entries with
  | nil => rfl
  | cons e rest ih =>
    obtain ⟨n, node⟩ := e
    obtain ⟨hhead, htail⟩ := List.forall_mem_cons.mp h
    rw [visitsAmong, filesAmong, List.map_append, ← ih htail]
    have hvisit := Visit.below_concat root place n node
    simp only [← hvisit]
    by_cases hkeep : keep (.below root (place ++ [n]) node) = true
    · rw [if_pos hkeep, ← hhead _ hkeep, walkedFiles_ok_cons, walkedFiles_append, List.append_assoc,
        Path.descend_append, List.length_append]
      rfl
    · rw [if_neg hkeep]
      have hshut : looksAt keep root (place ++ [n]) node = false := by simp [looksAt, hkeep]
      cases node <;> simp [Node.filesAt, hshut]

/-- A walk by paths meets the files that the walk by places meets. -/
theorem walkedFiles_visits {node : Node} (hkeep : keep (.below root place node) = true) :
    (if node.isFile then [Visit.below root place node] else []) ++
        walkedFiles (node.visits keep (root.descend place) place.length) =
      (node.filesAt (looksAt keep root) place).map fun f => .below root f.1 f.2 := by
  induction node using Node.induction generalizing place with
  | file bytes closed =>
    simp [Node.filesAt, looksAt, hkeep, Node.isFile, Node.isDir, Node.visits, walkedFiles]
  | link target => simp [Node.filesAt, Node.isFile, Node.visits, walkedFiles]
  | dir entries closed ih =>
    have hdir : (Node.dir entries closed).isFile = false := rfl
    rw [Node.filesAt, Node.visits, hdir, if_neg Bool.false_ne_true, List.nil_append]
    by_cases hlong : maxPathBytes < FileTree.byteCount (root.descend place).symbols
    · have hshut : looksAt keep root place (.dir entries closed) = false := by
        simp [looksAt, Node.isDir, hlong]
      rw [if_pos hlong, hshut]
      rfl
    rw [if_neg hlong]
    cases closed with
    | true =>
      have hshut : looksAt keep root place (.dir entries true) = false := by
        simp [looksAt, Node.isDir, Node.isClosed]
      rw [if_pos rfl, hshut]
      rfl
    | false =>
      have hopen : looksAt keep root place (.dir entries false) = true := by
        simpa [looksAt, hkeep, Node.isDir, Node.isClosed] using hlong
      rw [if_neg Bool.false_ne_true, if_pos hopen]
      exact walkedFiles_visitsAmong fun e he _ => ih e he

/-- A walk from a path that leads to a directory, be it through a link, goes into the directory. -/
theorem FileTree.walk_of_dir {t : FileTree} {entries : List (Name × Node)} {closed : Bool}
    (hroot : t.node .target root = .ok (.dir entries closed))
    (hkeep : ∀ node, keep ⟨root, 0, node⟩ = true) :
    ∃ node, node.isFile = false ∧
      t.walk keep root = .ok ⟨root, 0, node⟩ :: (Node.dir entries closed).visits keep root 0 := by
  obtain ⟨hnul, hne, hshort, place, hwalk⟩ := spot_of_node hroot
  obtain ⟨place₁, node, hentry, hnode⟩ := walkTo_entry_of_target hwalk
  have hmet : t.node .entry root = .ok node := by
    rw [FileTree.node, spot, hnul, hentry]
    simp [hne, Nat.not_lt.mpr hshort]
  rcases hnode with rfl | ⟨target, rfl⟩
  · exact ⟨.dir entries closed, rfl, by simp [walk, hmet, hkeep]⟩
  · exact ⟨.link target, rfl, by simp [walk, hmet, hroot, hkeep]⟩

/-- The files of a walk from a directory. -/
theorem FileTree.walkedFiles_walk {t : FileTree} {entries : List (Name × Node)} {closed : Bool}
    (hroot : t.node .target root = .ok (.dir entries closed))
    (hkeep : ∀ node, keep ⟨root, 0, node⟩ = true) :
    walkedFiles (t.walk keep root) =
      ((Node.dir entries closed).filesAt (looksAt keep root) []).map fun f => .below root f.1 f.2 := by
  obtain ⟨node, hnode, hwalk⟩ := walk_of_dir hroot hkeep
  have hvisits : [] ++ walkedFiles ((Node.dir entries closed).visits keep root 0) = _ :=
    @walkedFiles_visits [] keep root (.dir entries closed) (hkeep _)
  rw [hwalk, walkedFiles_ok_cons, ← hvisits]
  simp [hnode]

end

end AndroidAudit
