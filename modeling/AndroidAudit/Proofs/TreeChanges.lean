import AndroidAudit.FileTree.Change
import AndroidAudit.Proofs.LinklessTrees

/-!
# Changes below a directory

`Node.put` changes what stands at one place. What it leaves alone is said by `Node.put_dir`, and
that nothing goes away by `Node.Grown`: each directory, file and link is still one, though it may hold
more. After such a change a path leads to the same place as before (`FileTree.spot_target_of_grown`).

Below a directory without links, making a directory and writing a file either fail or put just that
at their place (`FileTree.Holds.makeDirAll_cases`, `FileTree.Holds.write_cases`).
-/

namespace AndroidAudit

open Text (Symbol)

namespace Node

variable {entries : List (Name × Node)} {closed : Bool} {n m : Name} {place more : List Name}
  {node new found below : Node}

/-! ## What a change leaves -/

theorem lookup_putEntry (n : Name) (new : Node) (entries : List (Name × Node)) (m : Name) :
    (putEntry n new entries).lookup m = if m = n then some new else entries.lookup m := by
  induction entries with
  | nil =>
    rw [putEntry, List.lookup_cons]
    by_cases hm : m = n
    · simp [hm]
    · rw [beq_eq_false_iff_ne.mpr hm, if_neg hm]
  | cons e rest ih =>
    obtain ⟨k, old⟩ := e
    rw [putEntry]
    by_cases hk : k = n
    · subst hk
      rw [if_pos rfl, List.lookup_cons, List.lookup_cons]
      by_cases hm : m = k
      · simp [hm]
      · rw [beq_eq_false_iff_ne.mpr hm, if_neg hm]
    · rw [if_neg hk, List.lookup_cons, List.lookup_cons, ih]
      by_cases hm : m = k
      · subst hm
        simp [hk]
      · rw [beq_eq_false_iff_ne.mpr hm]

theorem mem_putEntry {e : Name × Node} (h : e ∈ putEntry n new entries) : e = (n, new) ∨ e ∈ entries := by
  induction entries with
  | nil => exact .inl (List.mem_singleton.mp h)
  | cons d rest ih =>
    obtain ⟨k, old⟩ := d
    rw [putEntry] at h
    split at h
    · rename_i hk
      subst hk
      rcases List.mem_cons.mp h with h | h
      · exact .inl h
      · exact .inr (List.mem_cons_of_mem _ h)
    · rcases List.mem_cons.mp h with h | h
      · exact .inr (h ▸ List.mem_cons_self)
      · exact (ih h).imp_right (List.mem_cons_of_mem _)

/-- The entries under other names stay, in their order. -/
theorem filter_putEntry {keep : Name → Bool} (h : keep n = false) (new : Node)
    (entries : List (Name × Node)) :
    (putEntry n new entries).filter (keep ·.1) = entries.filter (keep ·.1) := by
  induction entries with
  | nil => simp [putEntry, h]
  | cons d rest ih =>
    obtain ⟨k, old⟩ := d
    rw [putEntry]
    split
    · rename_i hk
      subst hk
      simp [h]
    · rw [List.filter_cons, List.filter_cons, ih]

theorem put_of_lookup (h : entries.lookup n = some below) (place : List Name) (new : Node) :
    (Node.dir entries closed).put (n :: place) new =
      .dir (putEntry n (below.put place new) entries) closed := by
  rw [put, h]

theorem put_singleton (entries : List (Name × Node)) (closed : Bool) (n : Name) (new : Node) :
    (Node.dir entries closed).put [n] new = .dir (putEntry n new entries) closed := by
  rw [put]
  cases entries.lookup n with
  | none => rfl
  | some below => simp only [put]

/-- A directory in which something is put stays one, and its other entries stay. -/
theorem put_dir (entries : List (Name × Node)) (closed : Bool) (n : Name) (place : List Name)
    (new : Node) : ∃ entries', (Node.dir entries closed).put (n :: place) new = .dir entries' closed ∧
      (∀ m, m ≠ n → entries'.lookup m = entries.lookup m) ∧
      ∀ keep : Name → Bool, keep n = false →
        entries'.filter (keep ·.1) = entries.filter (keep ·.1) := by
  have hput (x : Node) : (∀ m, m ≠ n → (putEntry n x entries).lookup m = entries.lookup m) ∧
      ∀ keep : Name → Bool, keep n = false →
        (putEntry n x entries).filter (keep ·.1) = entries.filter (keep ·.1) :=
    ⟨fun m hm => by rw [lookup_putEntry, if_neg hm], fun keep hk => filter_putEntry hk x entries⟩
  cases hl : entries.lookup n with
  | some below => exact ⟨_, put_of_lookup hl place new, hput _⟩
  | none =>
    by_cases hnil : place = []
    · subst hnil
      exact ⟨_, put_singleton entries closed n new, hput new⟩
    · refine ⟨entries, ?_, fun _ _ => rfl, fun _ _ => rfl⟩
      rw [put, hl]
      simp [hnil]

theorem get?_singleton (entries : List (Name × Node)) (closed : Bool) (n : Name) :
    (Node.dir entries closed).get? [n] = entries.lookup n := by
  rw [get?_cons]
  cases entries.lookup n <;> rfl

/-- To change something below a place is to change what stands at the place. -/
theorem put_append (h : node.get? place = some found) (more : List Name) (new : Node) :
    node.put (place ++ more) new = node.put place (found.put more new) := by
  induction place generalizing node with
  | nil =>
    rw [get?, Option.some.injEq] at h
    rw [List.nil_append, h, put]
  | cons n place ih =>
    obtain ⟨entries, closed, below, rfl, hl, hbelow⟩ := dir_of_get?_cons h
    rw [List.cons_append, put_of_lookup hl, put_of_lookup hl, ih hbelow]

/-- What stands at and below a place after a change there. -/
theorem get?_put (h : node.get? place = some found) (new : Node) (more : List Name) :
    (node.put place new).get? (place ++ more) = new.get? more := by
  induction place generalizing node with
  | nil => rw [put, List.nil_append]
  | cons n place ih =>
    obtain ⟨entries, closed, below, rfl, hl, hbelow⟩ := dir_of_get?_cons h
    rw [put_of_lookup hl, List.cons_append, get?_cons, lookup_putEntry, if_pos rfl, Option.bind_some,
      ih hbelow]

/-- What is put into a directory stands there. -/
theorem get?_put_concat (h : node.get? place = some (.dir entries closed)) (n : Name) (new : Node) :
    (node.put (place ++ [n]) new).get? (place ++ [n]) = some new := by
  rw [put_append h, get?_put h, put_singleton, get?_singleton, lookup_putEntry, if_pos rfl]

/-! ## Links -/

theorem put_ne_link (hnode : ∀ target, node ≠ .link target) (hnew : ∀ target, new ≠ .link target)
    (place : List Name) (target : Path) : node.put place new ≠ .link target := by
  cases place with
  | nil =>
    rw [put]
    exact hnew target
  | cons n place =>
    cases node with
    | file bytes closed => exact nofun
    | link other => exact absurd rfl (hnode other)
    | dir entries closed =>
      obtain ⟨entries', hput, -⟩ := put_dir entries closed n place new
      rw [hput]
      exact nofun

theorem Linkless.put (h : node.Linkless) (hnew : new.Linkless) (hlink : ∀ target, new ≠ .link target)
    (place : List Name) : (node.put place new).Linkless := by
  induction place generalizing node with
  | nil => rwa [Node.put]
  | cons n place ih =>
    cases node with
    | file bytes closed => exact h
    | link target => exact h
    | dir entries closed =>
      obtain ⟨hentries, hbelow⟩ := everyDir_dir.mp h
      have hputEntry (x : Node) (hx : x.Linkless) (hxl : ∀ target, x ≠ .link target) :
          (Node.dir (putEntry n x entries) closed).Linkless := by
        refine everyDir_dir.mpr ⟨fun e he => ?_, fun e he => ?_⟩
        · rcases mem_putEntry he with rfl | he
          · exact hxl
          · exact hentries e he
        · rcases mem_putEntry he with rfl | he
          · exact hx
          · exact hbelow e he
      cases hl : entries.lookup n with
      | some below =>
        obtain ⟨hsub, hsubl⟩ := h.of_lookup hl
        rw [put_of_lookup hl]
        exact hputEntry _ (ih hsub) (put_ne_link hsubl hlink place)
      | none =>
        by_cases hnil : place = []
        · subst hnil
          rw [put_singleton]
          exact hputEntry new hnew hlink
        · have hsame : (Node.dir entries closed).put (n :: place) new = .dir entries closed := by
            rw [Node.put, hl]
            simp [hnil]
          rw [hsame]
          exact h

/-! ## Growth -/

/-- A node as a directory, a file or a certain link, whatever it holds. -/
def kind : Node → Node
  | .file _ closed => .file [] closed
  | .link target => .link target
  | .dir _ closed => .dir [] closed

theorem eq_link_of_kind {target : Path} (h : node.kind = .link target) : node = .link target := by
  cases node <;> simp_all [kind]

theorem eq_dir_of_kind (h : node.kind = .dir [] closed) : ∃ entries, node = .dir entries closed := by
  cases node <;> simp_all [kind]

/-- What stands at a place in `a` has its like there in `b`. -/
def Grown (a b : Node) : Prop :=
  ∀ place m, a.get? place = some m → ∃ m', b.get? place = some m' ∧ m.kind = m'.kind

theorem Grown.refl (a : Node) : a.Grown a := fun _ m hm => ⟨m, hm, rfl⟩

theorem Grown.trans {a b c : Node} (hab : a.Grown b) (hbc : b.Grown c) : a.Grown c := by
  intro place m hm
  obtain ⟨m', hm', hk⟩ := hab place m hm
  obtain ⟨m'', hm'', hk'⟩ := hbc place m' hm'
  exact ⟨m'', hm'', hk.trans hk'⟩

theorem Grown.dir {entries entries' : List (Name × Node)}
    (h : ∀ n below, entries.lookup n = some below →
      ∃ below', entries'.lookup n = some below' ∧ below.Grown below') :
    (Node.dir entries closed).Grown (.dir entries' closed) := by
  rintro (_ | ⟨n, place⟩) m hm
  · rw [get?, Option.some.injEq] at hm
    exact ⟨.dir entries' closed, rfl, by rw [← hm]; rfl⟩
  · rw [get?_cons, Option.bind_eq_some_iff] at hm
    obtain ⟨below, hl, hbelow⟩ := hm
    obtain ⟨below', hl', hgrown⟩ := h n below hl
    obtain ⟨m', hm', hk⟩ := hgrown place m hbelow
    exact ⟨m', by rw [get?_cons, hl', Option.bind_some, hm'], hk⟩

/-- A change makes a tree grow if what stood at its place had its like in what is put there. -/
theorem Grown.put (h : ∀ m, node.get? place = some m → m.Grown new) : node.Grown (node.put place new) := by
  induction place generalizing node with
  | nil =>
    rw [Node.put]
    exact h node rfl
  | cons n place ih =>
    cases node with
    | file bytes closed => exact .refl _
    | link target => exact .refl _
    | dir entries closed =>
      cases hl : entries.lookup n with
      | some below =>
        rw [put_of_lookup hl]
        refine .dir fun m found hm => ?_
        rw [lookup_putEntry]
        by_cases hmn : m = n
        · subst hmn
          rw [hl, Option.some.injEq] at hm
          subst hm
          refine ⟨_, if_pos rfl, ih fun m' hm' => h m' ?_⟩
          rw [get?_cons, hl, Option.bind_some, hm']
        · exact ⟨found, by rw [if_neg hmn, hm], .refl _⟩
      | none =>
        obtain ⟨entries', hput, hother, -⟩ := put_dir entries closed n place new
        rw [hput]
        refine .dir fun m found hm => ⟨found, ?_, .refl _⟩
        rw [hother m ?_, hm]
        rintro rfl
        rw [hl] at hm
        cases hm

end Node

/-- The place that a path leads to, be it vacant. -/
def Spot.place : Spot → List Name
  | .taken place _ => place
  | .vacant dir name => dir ++ [name]

namespace FileTree

section

variable {root root' : Node} {aim : Aim} {place rest : List Name} {n : Name}
  {entries : List (Name × Node)} {closed : Bool}

theorem dir_of_grown (hg : root.Grown root') (h : root.get? place = some (.dir entries closed)) :
    ∃ entries', root'.get? place = some (.dir entries' closed) := by
  obtain ⟨m', hm', hk⟩ := hg place _ h
  obtain ⟨entries', rfl⟩ := Node.eq_dir_of_kind hk.symm
  exact ⟨entries', hm'⟩

theorem LooksUp.of_grown (hg : root.Grown root') (h : LooksUp root aim place n rest entries) :
    ∃ entries', LooksUp root' .target place n rest entries' ∧
      ∀ below, entries.lookup n = some below →
        ∃ below', entries'.lookup n = some below' ∧ below.kind = below'.kind := by
  obtain ⟨closed, hdir⟩ := h.dir
  obtain ⟨entries', hdir'⟩ := dir_of_grown hg hdir
  refine ⟨entries', { h with dir := ⟨closed, hdir'⟩, not_slashed := fun e => by cases e.1 },
    fun below hl => ?_⟩
  rw [← Node.get?_concat hdir']
  exact hg _ _ (by rw [Node.get?_concat hdir, hl])

end

/-- When a tree has grown, a search leads to the same place as before, and to what stands there now,
unless that is a link. -/
theorem walkTo_of_grown {root root' : Node} (hg : root.Grown root') {aim : Aim} {links : Nat}
    {place todo : List Name} {found : Spot} (h : walkTo root aim links place todo = .ok found)
    {node : Node} (hnode : root'.get? found.place = some node) (hlink : ∀ target, node ≠ .link target) :
    walkTo root' .target links place todo = .ok (.taken found.place node) := by
  induction links, place, todo using search_induction root aim with
  | done links place =>
    obtain ⟨m, -, rfl⟩ := walkTo_nil_eq_ok h
    exact walkTo_nil hnode
  | stop links place n rest result hturns =>
    rw [hturns.walkTo_stop] at h
    subst h
    cases hturns with
    | vacant hlooks hl hrest =>
      -- the vacant name, which may have been given to something
      obtain ⟨entries', hlooks', -⟩ := hlooks.of_grown hg
      obtain ⟨closed, hdir'⟩ := hlooks'.dir
      have hlookup : entries'.lookup n = some node := by rw [← Node.get?_concat hdir']; exact hnode
      rw [(Turns.below hlooks' hlookup hlink).walkTo_go, hrest]
      exact walkTo_nil hnode
    | @entry entries target hlooks hl hend =>
      obtain ⟨closed, hdir⟩ := hlooks.dir
      obtain ⟨m', hm', hk⟩ := hg (place ++ [n]) (.link target) (by rw [Node.get?_concat hdir, hl])
      rw [Spot.place, hm', Option.some.injEq] at hnode
      exact absurd (hnode.symm.trans (Node.eq_link_of_kind hk.symm)) (hlink target)
  | go links place n rest links' place' todo hturns ih =>
    rw [hturns.walkTo_go] at h
    cases hturns with
    | idle hdir hidle =>
      obtain ⟨entries', hdir'⟩ := dir_of_grown hg hdir
      rw [(Turns.idle hdir' hidle).walkTo_go]
      exact ih h
    | up hdir hup =>
      obtain ⟨entries', hdir'⟩ := dir_of_grown hg hdir
      rw [(Turns.up hdir' hup).walkTo_go]
      exact ih h
    | link hlooks hl hend hlinks hempty =>
      obtain ⟨entries', hlooks', hlookup⟩ := hlooks.of_grown hg
      obtain ⟨below', hl', hk⟩ := hlookup _ hl
      rw [Node.eq_link_of_kind hk.symm] at hl'
      rw [(Turns.link hlooks' hl' (fun e => by cases e.2) hlinks hempty).walkTo_go]
      exact ih h
    | below hlooks hl hbelow =>
      obtain ⟨entries', hlooks', hlookup⟩ := hlooks.of_grown hg
      obtain ⟨below', hl', hk⟩ := hlookup _ hl
      have hbelow' : ∀ target, below' ≠ .link target := by
        rintro target rfl
        exact hbelow target (Node.eq_link_of_kind hk)
      rw [(Turns.below hlooks' hl' hbelow').walkTo_go]
      exact ih h

theorem spot_target_of_grown {t t' : FileTree} (hcwd : t'.cwd = t.cwd) (hg : t.root.Grown t'.root)
    {aim : Aim} {p : Path} {found : Spot} (h : t.spot aim p = .ok found) {node : Node}
    (hnode : t'.root.get? found.place = some node) (hlink : ∀ target, node ≠ .link target) :
    t'.spot .target p = .ok (.taken found.place node) := by
  rw [spot] at h ⊢
  rw [hcwd]
  split_ifs at h ⊢ <;> exact walkTo_of_grown hg h hnode hlink

/-- Where a path leads to a directory, it still does when the tree has grown. -/
theorem spot_of_grown {t t' : FileTree} (hcwd : t'.cwd = t.cwd) (hg : t.root.Grown t'.root) {p : Path}
    {place : List Name} {entries : List (Name × Node)} {closed : Bool}
    (h : t.spot .target p = .ok (.taken place (.dir entries closed))) :
    ∃ entries', t'.spot .target p = .ok (.taken place (.dir entries' closed)) := by
  obtain ⟨entries', hm'⟩ := dir_of_grown hg (get?_of_spot h)
  exact ⟨entries', spot_target_of_grown hcwd hg h hm' nofun⟩

end FileTree

/-! ## Searches below a directory -/

namespace Node

variable {place names mid : List Name} {node found : Node} {entries : List (Name × Node)}
  {closed : Bool} {n : Name}

theorem reach_of_get? (hnames : ∀ n ∈ names, n.Allowed) (h : node.get? names = some found) :
    node.reach place names = .ok (.taken (place ++ names) found) := by
  induction names generalizing place node with
  | nil =>
    rw [get?, Option.some.injEq] at h
    rw [reach, h, List.append_nil]
  | cons n names ih =>
    obtain ⟨hn, hnames⟩ := List.forall_mem_cons.mp hnames
    obtain ⟨entries, closed, below, rfl, hl, hbelow⟩ := dir_of_get?_cons h
    rw [reach, if_neg (Nat.not_lt.mpr hn.short), hl, List.append_cons place n names]
    exact ih hnames hbelow

theorem reach_of_vacant (hnames : ∀ m ∈ mid ++ [n], m.Allowed)
    (h : node.get? mid = some (.dir entries closed)) (hn : entries.lookup n = none) :
    node.reach place (mid ++ [n]) = .ok (.vacant (place ++ mid) n) := by
  induction mid generalizing place node with
  | nil =>
    rw [get?, Option.some.injEq] at h
    have hshort := (hnames n (by simp)).short
    rw [h, List.nil_append, reach, if_neg (Nat.not_lt.mpr hshort), hn, List.append_nil]
    rfl
  | cons m mid ih =>
    obtain ⟨hm, hnames⟩ := List.forall_mem_cons.mp hnames
    obtain ⟨es, closed', below, rfl, hl, hbelow⟩ := dir_of_get?_cons h
    rw [List.cons_append, reach, if_neg (Nat.not_lt.mpr hm.short), hl, List.append_cons place m mid]
    exact ih hnames hbelow

/-- What a search finds stands where the names lead. -/
theorem get?_of_reach {place' : List Name} (h : node.reach place names = .ok (.taken place' found)) :
    place' = place ++ names ∧ node.get? names = some found := by
  induction names generalizing place node with
  | nil =>
    rw [reach] at h
    cases h
    exact ⟨(List.append_nil _).symm, rfl⟩
  | cons n names ih =>
    cases node with
    | file bytes closed => cases h
    | link target => cases h
    | dir entries closed =>
      rw [reach] at h
      split at h
      · cases h
      · cases hl : entries.lookup n with
        | none =>
          rw [hl] at h
          simp only at h
          split at h <;> cases h
        | some below =>
          rw [hl] at h
          obtain ⟨rfl, hfound⟩ := ih h
          exact ⟨by simp, by rw [get?_cons, hl, Option.bind_some, hfound]⟩

/-- A search that ends at a vacant name has come to the directory that lacks it. -/
theorem vacant_of_reach {dir : List Name} (h : node.reach place names = .ok (.vacant dir n)) :
    ∃ mid entries closed, names = mid ++ [n] ∧ dir = place ++ mid ∧
      node.get? mid = some (.dir entries closed) ∧ entries.lookup n = none := by
  induction names generalizing place node with
  | nil =>
    rw [reach] at h
    cases h
  | cons m names ih =>
    cases node with
    | file bytes closed => cases h
    | link target => cases h
    | dir entries closed =>
      rw [reach] at h
      split at h
      · cases h
      · cases hl : entries.lookup m with
        | none =>
          rw [hl] at h
          simp only at h
          split at h
          · rename_i hlast
            cases h
            rw [List.isEmpty_iff.mp hlast]
            exact ⟨[], entries, closed, rfl, (List.append_nil _).symm, rfl, hl⟩
          · cases h
        | some below =>
          rw [hl] at h
          obtain ⟨mid, es, closed', rfl, rfl, hmid, hn⟩ := ih h
          refine ⟨m :: mid, es, closed', rfl, by simp, ?_, hn⟩
          rw [get?_cons, hl, Option.bind_some, hmid]

end Node

/-! ## Directories and files made below a directory -/

/-- Whether what stood somewhere was closed, if anything did. -/
def wasClosed (old : Option Node) : Bool := (old.map Node.isClosed).getD false

namespace FileTree

theorem withoutEndSlash_eq {p : Path} (h : p.symbols.getLast? ≠ some Path.slash) :
    withoutEndSlash p = p := by
  rw [withoutEndSlash]
  cases hrev : p.symbols.reverse with
  | nil => rfl
  | cons c cs =>
    have hc : (c == Path.slash) = false := by
      rw [beq_eq_false_iff_ne]
      rintro rfl
      rw [← List.head?_reverse, hrev] at h
      exact h rfl
    rw [List.dropWhile_cons_of_neg (by simp [hc])]
    simp only [← hrev, List.reverse_reverse]

theorem getLast?_absolute {place : List Name} (hne : place ≠ []) (h : ∀ n ∈ place, n.Plain) :
    (absolute place).symbols.getLast? ≠ some Path.slash := by
  obtain ⟨n, hn, q, hq⟩ := Path.exists_descend_eq_child (absolute []) hne
  rw [absolute_eq_descend h, hq]
  exact Path.getLast?_symbols_child q (h n hn)

theorem makeDirAll_eq (t : FileTree) (p : Path) : ∃ above, t.makeDirAll p = t.makeDirs (p :: above) := by
  rw [makeDirAll, Path.ancestors]
  cases p.symbols.length with
  | zero => exact ⟨[], rfl⟩
  | succ k =>
    rw [Path.ancestors.go]
    cases p.parent? with
    | none => exact ⟨[], rfl⟩
    | some r => exact ⟨_, rfl⟩

namespace Holds

variable {t t' : FileTree} {place names mid : List Name} {entries es : List (Name × Node)}
  {closed closed' : Bool} {n : Name} {below : Node} {bytes : List UInt8}

theorem makeDir_eq (h : t.Holds place entries closed) (hn : n.Allowed) :
    t.makeDir (absolute (place ++ [n])) =
      if maxPathBytes < byteCount (absolute (place ++ [n])).symbols then .error .nameTooLong
      else if (entries.lookup n).isSome then .error .exists
      else .ok (t.put (place ++ [n]) (.dir [] false)) := by
  have hplain : ∀ m ∈ [n], m.Plain := by simpa using hn.toPlain
  have hall : ∀ m ∈ place ++ [n], m.Plain := List.forall_mem_append.mpr ⟨h.plain, hplain⟩
  rw [makeDir, withoutEndSlash_eq (getLast?_absolute (by simp) hall),
    h.spot_absolute hplain (by simpa using hn.no_nul)]
  split_ifs with hlong hsome
  · rfl
  · obtain ⟨below, hl⟩ := Option.isSome_iff_exists.mp hsome
    have hget : (Node.dir entries closed).get? [n] = some below := by rw [Node.get?_singleton, hl]
    rw [Node.reach_of_get? (by simpa using hn) hget]
  · have hnone : entries.lookup n = none := Option.not_isSome_iff_eq_none.mp hsome
    have hreach := @Node.reach_of_vacant place [] (.dir entries closed) entries closed n
      (by simpa using hn) rfl hnone
    rw [List.nil_append, List.append_nil] at hreach
    rw [hreach]

theorem makeDirAll_of_vacant (h : t.Holds place entries closed) (hn : n.Allowed)
    (hshort : byteCount (absolute (place ++ [n])).symbols ≤ maxPathBytes)
    (hl : entries.lookup n = none) :
    t.makeDirAll (absolute (place ++ [n])) = (.ok (), t.put (place ++ [n]) (.dir [] false)) := by
  obtain ⟨above, habove⟩ := t.makeDirAll_eq (absolute (place ++ [n]))
  have hmake := h.makeDir_eq hn
  rw [if_neg (Nat.not_lt.mpr hshort), hl, if_neg (by simp)] at hmake
  rw [habove, makeDirs, hmake]
  rfl

/-- Where something stands no directory is made, which is a failure if it is no directory. -/
theorem makeDirAll_of_lookup (h : t.Holds place entries closed) (hn : n.Allowed)
    (hshort : byteCount (absolute (place ++ [n])).symbols ≤ maxPathBytes)
    (hl : entries.lookup n = some below) :
    t.makeDirAll (absolute (place ++ [n])) = (if below.isDir then .ok () else .error .exists, t) := by
  obtain ⟨above, habove⟩ := t.makeDirAll_eq (absolute (place ++ [n]))
  have hmake := h.makeDir_eq hn
  rw [if_neg (Nat.not_lt.mpr hshort), hl, Option.isSome_some, if_pos rfl] at hmake
  have hget : (Node.dir entries closed).get? [n] = some below := by rw [Node.get?_singleton, hl]
  have hisDir : t.isDir (absolute (place ++ [n])) = below.isDir := by
    rw [isDir, node, h.spot_absolute (by simpa using hn.toPlain) (by simpa using hn.no_nul),
      if_neg (Nat.not_lt.mpr hshort), Node.reach_of_get? (by simpa using hn) hget]
  rw [habove, makeDirs, hmake]
  simp only [hisDir]
  rfl

theorem makeDirAll_of_taken (h : t.Holds place entries closed) (hn : n.Allowed)
    (hshort : byteCount (absolute (place ++ [n])).symbols ≤ maxPathBytes)
    (hl : entries.lookup n = some (.dir es closed')) :
    t.makeDirAll (absolute (place ++ [n])) = (.ok (), t) :=
  h.makeDirAll_of_lookup hn hshort hl

/-- Making a directory below one without links leaves all as it is, or puts an empty directory where
nothing was. -/
theorem makeDirAll_cases (h : t.Holds place entries closed) (hn : n.Allowed) :
    (t.makeDirAll (absolute (place ++ [n]))).2 = t ∨
      entries.lookup n = none ∧
        (t.makeDirAll (absolute (place ++ [n]))).2 = t.put (place ++ [n]) (.dir [] false) := by
  obtain ⟨above, habove⟩ := t.makeDirAll_eq (absolute (place ++ [n]))
  have hmake := h.makeDir_eq hn
  split_ifs at hmake with hlong hsome
  · left
    rw [habove, makeDirs, hmake]
    rfl
  · left
    rw [habove, makeDirs, hmake]
    rfl
  · right
    refine ⟨Option.not_isSome_iff_eq_none.mp hsome, ?_⟩
    rw [habove, makeDirs, hmake]
    rfl

theorem write_of_free (h : t.Holds place entries closed) (hnames : ∀ m ∈ mid ++ [n], m.Allowed)
    (hshort : byteCount (absolute (place ++ (mid ++ [n]))).symbols ≤ maxPathBytes)
    (hmid : (Node.dir entries closed).get? mid = some (.dir es closed'))
    (hfree : ∀ below, es.lookup n = some below → below.isFile = true) :
    t.write (absolute (place ++ (mid ++ [n]))) bytes =
      .ok (t.put (place ++ (mid ++ [n])) (.file bytes (wasClosed (es.lookup n)))) := by
  rw [write, h.spot_absolute (fun m hm => (hnames m hm).toPlain) (fun m hm => (hnames m hm).no_nul),
    if_neg (Nat.not_lt.mpr hshort)]
  cases hl : es.lookup n with
  | none =>
    rw [Node.reach_of_vacant hnames hmid hl]
    simp only [List.append_assoc]
    rfl
  | some below =>
    have hfile := hfree below hl
    cases below with
    | dir es kept => cases hfile
    | link target => cases hfile
    | file old kept =>
      have hget : (Node.dir entries closed).get? (mid ++ [n]) = some (.file old kept) := by
        rw [Node.get?_concat hmid, hl]
      rw [Node.reach_of_get? hnames hget]
      rfl

/-- Writing below a directory without links fails, or puts a file where nothing or a file was. -/
theorem write_cases (h : t.Holds place entries closed) (hplain : ∀ m ∈ names, m.Plain)
    (hnul : ∀ m ∈ names, Symbol.char '\x00' ∉ m)
    (hw : t.write (absolute (place ++ names)) bytes = .ok t') :
    ∃ mid n es closed', names = mid ++ [n] ∧
      (Node.dir entries closed).get? mid = some (.dir es closed') ∧
      (∀ below, es.lookup n = some below → below.isFile = true) ∧
      t' = t.put (place ++ names) (.file bytes (wasClosed (es.lookup n))) := by
  rw [write, h.spot_absolute hplain hnul] at hw
  split_ifs at hw
  cases hr : (Node.dir entries closed).reach place names with
  | error e => rw [hr] at hw; cases hw
  | ok found =>
    rw [hr] at hw
    cases found with
    | vacant dir n =>
      obtain ⟨mid, es, closed', rfl, rfl, hmid, hn⟩ := Node.vacant_of_reach hr
      cases hw
      refine ⟨mid, n, es, closed', rfl, hmid, fun below hl => ?_, ?_⟩
      · rw [hn] at hl
        cases hl
      · rw [hn, List.append_assoc]
        rfl
    | taken place' node =>
      obtain ⟨rfl, hget⟩ := Node.get?_of_reach hr
      cases node with
      | dir es closed' => cases hw
      | link target => cases hw
      | file old closed' =>
        cases hw
        rcases names.eq_nil_or_concat with rfl | ⟨mid, n, rfl⟩
        · cases hget
        · rw [List.concat_eq_append] at hget ⊢
          obtain ⟨es, closed'', habove⟩ := Node.dir_of_get?_append hget (by simp)
          rw [Node.get?_concat habove] at hget
          refine ⟨mid, n, es, closed'', rfl, habove, fun below hl => ?_, by rw [hget]; rfl⟩
          rw [hl, Option.some.injEq] at hget
          rw [hget]
          rfl

end Holds

end FileTree

end AndroidAudit
