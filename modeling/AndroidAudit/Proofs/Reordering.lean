import Mathlib.Data.List.Perm.Basic
import AndroidAudit.Audit.Scan
import AndroidAudit.Proofs.NativeDetection

/-!
# Trees that list their entries in another order

A host may list the entries of a directory in any order. Two trees that differ in nothing else hold
the same at each place (`Node.Reordered.alike`), so a path leads to the same in both
(`FileTree.Alike.node`), and a walk meets the same files (`walkedFiles_walk_perm`).
-/

namespace AndroidAudit

/-! ## Places -/

/-- Trees that differ in the order of entries alone. -/
inductive Node.Reordered : Node → Node → Prop where
  | refl (node : Node) : Reordered node node
  | trans {a b c : Node} : Reordered a b → Reordered b c → Reordered a c
  | perm {entries entries' : List (Name × Node)} {closed : Bool} : entries.Perm entries' →
      Reordered (.dir entries closed) (.dir entries' closed)
  /-- A change below one entry. -/
  | entry {a b : Node} (before : List (Name × Node)) (n : Name) (after : List (Name × Node))
      {closed : Bool} : Reordered a b →
      Reordered (.dir (before ++ (n, a) :: after) closed) (.dir (before ++ (n, b) :: after) closed)

/-- A node without what is below it. -/
def Node.bare : Node → Node
  | .dir _ closed => .dir [] closed
  | node => node

/-- Nodes that hold the same at each place. -/
def Node.Alike (a b : Node) : Prop := ∀ place, (a.get? place).map bare = (b.get? place).map bare

theorem lookup_perm {entries entries' : List (Name × Node)} (hp : entries.Perm entries')
    (h : (entries.map (·.1)).Nodup) (n : Name) : entries.lookup n = entries'.lookup n := by
  have h' : (entries'.map (·.1)).Nodup := (hp.map _).nodup_iff.mp h
  refine Option.ext fun node => ?_
  rw [lookup_eq_some_iff h, lookup_eq_some_iff h', hp.mem_iff]

namespace Node.Reordered

variable {a b : Node}

theorem distinct (h : Reordered a b) (hd : a.Distinct) : b.Distinct := by
  induction h with
  | refl => exact hd
  | trans _ _ ih₁ ih₂ => exact ih₂ (ih₁ hd)
  | perm hp =>
    obtain ⟨hnames, hbelow⟩ := everyDir_dir.mp hd
    exact everyDir_dir.mpr ⟨(hp.map _).nodup_iff.mp hnames, fun e he => hbelow e (hp.mem_iff.mpr he)⟩
  | entry before n after _ ih =>
    obtain ⟨hnames, hbelow⟩ := everyDir_dir.mp hd
    refine everyDir_dir.mpr ⟨by simpa using hnames, fun e he => ?_⟩
    rcases List.mem_append.mp he with he | he
    · exact hbelow e (List.mem_append_left _ he)
    rcases List.mem_cons.mp he with rfl | he
    · exact ih (hbelow _ (List.mem_append_right _ List.mem_cons_self))
    · exact hbelow e (List.mem_append_right _ (List.mem_cons_of_mem _ he))

theorem alike (h : Reordered a b) (hd : a.Distinct) : a.Alike b := by
  induction h with
  | refl => exact fun _ => rfl
  | trans h₁ _ ih₁ ih₂ => exact fun place => (ih₁ hd place).trans (ih₂ (h₁.distinct hd) place)
  | perm hp =>
    rintro (_ | ⟨n, place⟩)
    · rfl
    · rw [get?, get?, child?, child?, lookup_perm hp (everyDir_dir.mp hd).1]
  | entry before n after _ ih =>
    have hbelow := (everyDir_dir.mp hd).2 (n, _) (List.mem_append_right _ List.mem_cons_self)
    rintro (_ | ⟨m, place⟩)
    · rfl
    · rw [get?, get?, child?, child?, List.lookup_append, List.lookup_append, List.lookup_cons,
        List.lookup_cons]
      cases before.lookup m with
      | some node => rfl
      | none =>
        by_cases hm : m = n
        · subst hm
          simpa using ih hbelow place
        · rw [beq_eq_false_iff_ne.mpr hm]

end Node.Reordered

namespace Node

variable {a b : Node}

theorem eq_of_bare_of_isDir (h : a.bare = b.bare) (ha : a.isDir = false) : a = b := by
  cases a <;> cases b <;> simp_all [bare, isDir]

theorem eq_link_of_bare {target : Path} (h : a.bare = .link target) : a = .link target := by
  cases a <;> simp_all [bare]

theorem eq_dir_of_bare {closed : Bool} (h : a.bare = .dir [] closed) :
    ∃ entries, a = .dir entries closed := by
  cases a <;> simp_all [bare]

theorem isDir_bare (node : Node) : node.bare.isDir = node.isDir := by cases node <;> rfl

theorem isClosed_bare (node : Node) : node.bare.isClosed = node.isClosed := by cases node <;> rfl

theorem isDir_of_isFile (h : a.isFile = true) : a.isDir = false := by
  cases a <;> simp_all [isFile, isDir]

theorem Alike.symm (h : a.Alike b) : b.Alike a := fun place => (h place).symm

/-- What stands at a place in one tree has its like there in the other. -/
theorem Alike.get? (h : a.Alike b) {place : List Name} {m : Node} (hm : a.get? place = some m) :
    ∃ m', b.get? place = some m' ∧ m.bare = m'.bare ∧ m.Alike m' := by
  have hplace := h place
  rw [hm, Option.map_some, eq_comm, Option.map_eq_some_iff] at hplace
  obtain ⟨m', hm', hbare⟩ := hplace
  refine ⟨m', hm', hbare.symm, fun rest => ?_⟩
  have hrest := h (place ++ rest)
  rwa [get?_append, get?_append, hm, hm', Option.bind_some, Option.bind_some] at hrest

theorem Alike.get?_eq_none (h : a.Alike b) {place : List Name} (hm : a.get? place = none) :
    b.get? place = none := by
  have hplace := h place
  rwa [hm, Option.map_none, eq_comm, Option.map_eq_none_iff] at hplace

/-- A walk by places meets the same files in trees that hold the same. -/
theorem Alike.filesAt_perm (h : a.Alike b) (ha : a.Distinct) (hb : b.Distinct)
    {isOpen : List Name → Node → Bool}
    (hopen : ∀ place m m', m.bare = m'.bare → isOpen place m = isOpen place m') (place : List Name) :
    (a.filesAt isOpen place).Perm (b.filesAt isOpen place) := by
  have hsub {a b : Node} (h : a.Alike b) (ha : a.Distinct) (hb : b.Distinct)
      {f : List Name × Node} (hf : f ∈ a.filesAt isOpen place) : f ∈ b.filesAt isOpen place := by
    obtain ⟨names, hplace, hget, hfile, hsteps⟩ := (mem_filesAt ha).mp hf
    refine (mem_filesAt hb).mpr ⟨names, hplace, ?_, hfile, fun x y m e hm => ?_⟩
    · obtain ⟨m', hm', hbare, -⟩ := h.get? hget
      rw [hm', eq_of_bare_of_isDir hbare (isDir_of_isFile hfile)]
    · obtain ⟨m', hm', hbare, -⟩ := h.symm.get? hm
      rw [hopen _ m m' hbare]
      exact hsteps x y m' e hm'
  rw [List.perm_ext_iff_of_nodup (nodup_filesAt ha).of_map (nodup_filesAt hb).of_map]
  exact fun f => ⟨hsub h ha hb, hsub h.symm hb ha⟩

end Node

/-! ## Paths -/

/-- A spot, of whose node nothing below counts. -/
def Spot.bare : Spot → Spot
  | .taken place node => .taken place node.bare
  | .vacant dir name => .vacant dir name

namespace FileTree

section

variable {root root' : Node} {aim : Aim} {links : Nat} {place rest : List Name} {n : Name}

theorem dir_of_alike (h : root.Alike root') {entries : List (Name × Node)} {closed : Bool}
    (hplace : root.get? place = some (.dir entries closed)) :
    ∃ entries', root'.get? place = some (.dir entries' closed) ∧
      ∀ n, (entries.lookup n).map Node.bare = (entries'.lookup n).map Node.bare := by
  obtain ⟨m', hm', hbare, -⟩ := h.get? hplace
  obtain ⟨entries', rfl⟩ := Node.eq_dir_of_bare hbare.symm
  refine ⟨entries', hm', fun n => ?_⟩
  rw [← Node.get?_concat hplace, ← Node.get?_concat hm']
  exact h (place ++ [n])

theorem LooksUp.of_alike (h : root.Alike root') {entries : List (Name × Node)}
    (hlooks : LooksUp root aim place n rest entries) : ∃ entries', LooksUp root' aim place n rest entries' ∧
      (entries.lookup n).map Node.bare = (entries'.lookup n).map Node.bare := by
  obtain ⟨closed, hdir⟩ := hlooks.dir
  obtain ⟨entries', hdir', hlookup⟩ := dir_of_alike h hdir
  exact ⟨entries', { hlooks with dir := ⟨closed, hdir'⟩ }, hlookup n⟩

/-- In trees that hold the same, the first segment of a search is taken in the same way. -/
theorem Turns.of_alike (h : root.Alike root') {τ : Turn} (ht : Turns root aim links place n rest τ) :
    Turns root' aim links place n rest τ := by
  have hlink {entries entries' : List (Name × Node)} {target : Path}
      (hmap : (entries.lookup n).map Node.bare = (entries'.lookup n).map Node.bare)
      (hl : entries.lookup n = some (.link target)) : entries'.lookup n = some (.link target) := by
    rw [hl, Option.map_some, eq_comm, Option.map_eq_some_iff] at hmap
    obtain ⟨below, hl', hbare⟩ := hmap
    rw [hl', Node.eq_link_of_bare hbare]
  have hnone {entries entries' : List (Name × Node)}
      (hmap : (entries.lookup n).map Node.bare = (entries'.lookup n).map Node.bare)
      (hl : entries.lookup n = none) : entries'.lookup n = none := by
    rwa [hl, Option.map_none, eq_comm, Option.map_eq_none_iff] at hmap
  cases ht with
  | lost hplace => exact .lost (h.get?_eq_none hplace)
  | blocked hplace hnode =>
    obtain ⟨m', hm', hbare, -⟩ := h.get? hplace
    exact .blocked hm' (by rw [← Node.isDir_bare, ← hbare, Node.isDir_bare, hnode])
  | idle hdir hidle =>
    obtain ⟨entries', hdir', -⟩ := dir_of_alike h hdir
    exact .idle hdir' hidle
  | up hdir hup =>
    obtain ⟨entries', hdir', -⟩ := dir_of_alike h hdir
    exact .up hdir' hup
  | slashed hdir hidle hup hslash =>
    obtain ⟨entries', hdir', -⟩ := dir_of_alike h hdir
    exact .slashed hdir' hidle hup hslash
  | overlong hdir hidle hup hslash hlong =>
    obtain ⟨entries', hdir', -⟩ := dir_of_alike h hdir
    exact .overlong hdir' hidle hup hslash hlong
  | vacant hlooks hl hrest =>
    obtain ⟨entries', hlooks', hmap⟩ := hlooks.of_alike h
    exact .vacant hlooks' (hnone hmap hl) hrest
  | missing hlooks hl hrest =>
    obtain ⟨entries', hlooks', hmap⟩ := hlooks.of_alike h
    exact .missing hlooks' (hnone hmap hl) hrest
  | entry hlooks hl hend =>
    obtain ⟨entries', hlooks', hmap⟩ := hlooks.of_alike h
    exact .entry hlooks' (hlink hmap hl) hend
  | spent hlooks hl hend hlinks =>
    obtain ⟨entries', hlooks', hmap⟩ := hlooks.of_alike h
    exact .spent hlooks' (hlink hmap hl) hend hlinks
  | dangling hlooks hl hend hlinks hempty =>
    obtain ⟨entries', hlooks', hmap⟩ := hlooks.of_alike h
    exact .dangling hlooks' (hlink hmap hl) hend hlinks hempty
  | link hlooks hl hend hlinks hempty =>
    obtain ⟨entries', hlooks', hmap⟩ := hlooks.of_alike h
    exact .link hlooks' (hlink hmap hl) hend hlinks hempty
  | below hlooks hl hbelow =>
    obtain ⟨entries', hlooks', hmap⟩ := hlooks.of_alike h
    rw [hl, Option.map_some, eq_comm, Option.map_eq_some_iff] at hmap
    obtain ⟨below', hl', hbare⟩ := hmap
    refine .below hlooks' hl' fun target hlink => hbelow target ?_
    rw [hlink] at hbare
    exact Node.eq_link_of_bare hbare.symm

end

/-- In trees that hold the same, a search leads to the same. -/
theorem map_bare_walkTo {root root' : Node} (h : root.Alike root') (aim : Aim) (links : Nat)
    (place todo : List Name) : (walkTo root aim links place todo).map Spot.bare =
      (walkTo root' aim links place todo).map Spot.bare := by
  induction links, place, todo using search_induction root aim with
  | done links place =>
    rw [walkTo, walkTo]
    cases hplace : root.get? place with
    | none => rw [h.get?_eq_none hplace]
    | some m =>
      obtain ⟨m', hm', hbare, -⟩ := h.get? hplace
      simp [hm', Except.map, Spot.bare, hbare]
  | stop links place n rest result hturns =>
    rw [hturns.walkTo_stop, (hturns.of_alike h).walkTo_stop]
  | go links place n rest links' place' todo hturns ih =>
    rw [hturns.walkTo_go, (hturns.of_alike h).walkTo_go, ih]

/-- Trees that hold the same, seen from the same directory. -/
structure Alike (t t' : FileTree) : Prop where
  root : t.root.Alike t'.root
  cwd : t.cwd = t'.cwd

variable {t t' : FileTree}

theorem Alike.map_bare_spot (h : t.Alike t') (aim : Aim) (p : Path) :
    (t.spot aim p).map Spot.bare = (t'.spot aim p).map Spot.bare := by
  rw [spot, spot, h.cwd]
  split_ifs
  · rfl
  · rfl
  · rfl
  · exact map_bare_walkTo h.root aim maxLinks [] _
  · exact map_bare_walkTo h.root aim maxLinks t'.cwd _

theorem node_eq_ok_iff {aim : Aim} {p : Path} {node : Node} :
    t.node aim p = .ok node ↔ ∃ place, t.spot aim p = .ok (.taken place node) := by
  rw [FileTree.node]
  split
  · rename_i place found hspot
    simp [hspot]
  · rename_i hspot
    simp [hspot]
  · rename_i hspot
    simp [hspot]

/-- In trees that hold the same, a path leads to the same. -/
theorem Alike.node (h : t.Alike t') {aim : Aim} {p : Path} {node : Node}
    (hn : t.node aim p = .ok node) :
    ∃ node', t'.node aim p = .ok node' ∧ node.bare = node'.bare ∧ node.Alike node' := by
  obtain ⟨place, hspot⟩ := node_eq_ok_iff.mp hn
  obtain ⟨node', hget', hbare, halike⟩ := h.root.get? (get?_of_spot hspot)
  have hspot' := h.map_bare_spot aim p
  rw [hspot] at hspot'
  refine ⟨node', node_eq_ok_iff.mpr ⟨place, ?_⟩, hbare, halike⟩
  cases hs : t'.spot aim p with
  | error e => rw [hs] at hspot'; cases hspot'
  | ok found =>
    rw [hs] at hspot'
    cases found with
    | vacant dir name => cases hspot'
    | taken place' found =>
      have hplace : place = place' := (Spot.taken.inj (Except.ok.inj hspot')).1
      have hget := get?_of_spot hs
      rw [← hplace, hget', Option.some.injEq] at hget
      rw [hplace, hget]

/-- In trees that hold the same, a path that leads nowhere does so for the same reason. -/
theorem Alike.node_error (h : t.Alike t') {aim : Aim} {p : Path} {e : SysError}
    (hn : t.node aim p = .error e) : t'.node aim p = .error e := by
  have hspot := h.map_bare_spot aim p
  rw [FileTree.node] at hn ⊢
  cases hs : t.spot aim p with
  | error e₁ =>
    cases hs' : t'.spot aim p with
    | error e₂ =>
      rw [hs, hs'] at hspot
      rw [hs] at hn
      rw [← hn]
      exact congrArg Except.error (Except.error.inj hspot).symm
    | ok s => rw [hs, hs'] at hspot; cases hspot
  | ok s =>
    cases hs' : t'.spot aim p with
    | error e₂ => rw [hs, hs'] at hspot; cases hspot
    | ok s' =>
      rw [hs, hs'] at hspot
      rw [hs] at hn
      cases s with
      | taken place node => cases hn
      | vacant dir name =>
        cases s' with
        | taken place node => cases hspot
        | vacant dir' name' => exact hn

/-- In trees that hold the same, a file starts with the same bytes. -/
theorem Alike.readPrefix? (h : t.Alike t') (p : Path) (length : Nat) :
    t.readPrefix? p length = t'.readPrefix? p length := by
  rw [FileTree.readPrefix?, FileTree.readPrefix?]
  cases hn : t.node .target p with
  | error e => rw [h.node_error hn]
  | ok node =>
    obtain ⟨node', hn', hbare, -⟩ := h.node hn
    rw [hn']
    cases hdir : node.isDir with
    | false => rw [Node.eq_of_bare_of_isDir hbare hdir]
    | true =>
      obtain ⟨entries, closed, rfl⟩ := Node.eq_dir_of_isDir hdir
      obtain ⟨entries', rfl⟩ := Node.eq_dir_of_bare hbare.symm
      rfl

theorem Alike.checkFile? (h : t.Alike t') (policy : NativeCodePolicy) (root path : Path) :
    policy.checkFile? t root path = policy.checkFile? t' root path := by
  simp only [NativeCodePolicy.checkFile?, h.readPrefix?]

end FileTree

/-! ## Walks -/

theorem ProjectLayout.looksAt_bare (l : ProjectLayout) (place : List Name) {m m' : Node}
    (h : m.bare = m'.bare) : looksAt l.keeps l.root place m = looksAt l.keeps l.root place m' := by
  have hdir : m.isDir = m'.isDir := by rw [← m.isDir_bare, h, m'.isDir_bare]
  have hclosed : m.isClosed = m'.isClosed := by rw [← m.isClosed_bare, h, m'.isClosed_bare]
  simp only [looksAt, keeps, Visit.below, hdir, hclosed]

section

variable {t t' : FileTree} (l : ProjectLayout)

theorem visits_perm {node node' : Node} (h : node.Alike node') (hbare : node.bare = node'.bare)
    (hd : node.Distinct) (hd' : node'.Distinct) :
    ((walkedFiles (node.visits l.keeps l.root 0)).map (·.path)).Perm
      ((walkedFiles (node'.visits l.keeps l.root 0)).map (·.path)) := by
  cases hdir : node.isDir with
  | false => rw [Node.eq_of_bare_of_isDir hbare hdir]
  | true =>
    obtain ⟨entries, closed, rfl⟩ := Node.eq_dir_of_isDir hdir
    obtain ⟨entries', rfl⟩ := Node.eq_dir_of_bare hbare.symm
    have hfiles (es : List (Name × Node)) :
        [] ++ walkedFiles ((Node.dir es closed).visits l.keeps l.root 0) = _ :=
      @walkedFiles_visits [] l.keeps l.root (.dir es closed) (l.keeps_root _)
    rw [← List.nil_append (walkedFiles _), hfiles, ← List.nil_append (walkedFiles _), hfiles]
    exact ((h.filesAt_perm hd hd' (fun place m m' => l.looksAt_bare place) []).map _).map _

theorem FileTree.distinct_of_node (hd : t.root.Distinct) {aim : Aim} {p : Path} {node : Node}
    (hn : t.node aim p = .ok node) : node.Distinct := by
  obtain ⟨place, hspot⟩ := node_eq_ok_iff.mp hn
  exact hd.get? (get?_of_spot hspot)

/-- Walks of trees that hold the same meet the same files. -/
theorem walkedFiles_walk_perm (h : t.Alike t') (hd : t.root.Distinct) (hd' : t'.root.Distinct) :
    ((walkedFiles (t.walk l.keeps l.root)).map (·.path)).Perm
      ((walkedFiles (t'.walk l.keeps l.root)).map (·.path)) := by
  rw [FileTree.walk, FileTree.walk]
  cases hn : t.node .entry l.root with
  | error e => rw [h.node_error hn]
  | ok node =>
    obtain ⟨node', hn', hbare, halike⟩ := h.node hn
    have hvisits := visits_perm l halike hbare (FileTree.distinct_of_node hd hn)
      (FileTree.distinct_of_node hd' hn')
    rw [hn']
    simp only [l.keeps_root, if_true]
    cases node with
    | file bytes closed => rw [← Node.eq_of_bare_of_isDir hbare rfl]
    | dir entries closed =>
      obtain ⟨entries', rfl⟩ := Node.eq_dir_of_bare hbare.symm
      simpa [walkedFiles_ok_cons, Node.isFile] using hvisits
    | link target =>
      rw [Node.eq_link_of_bare hbare.symm]
      cases ht : t.node .target l.root with
      | error e => rw [h.node_error ht]
      | ok below =>
        obtain ⟨below', ht', hbare', halike'⟩ := h.node ht
        have hbelow := visits_perm l halike' hbare' (FileTree.distinct_of_node hd ht)
          (FileTree.distinct_of_node hd' ht')
        rw [ht']
        simpa [walkedFiles_ok_cons, Node.isFile] using hbelow

end

end AndroidAudit
