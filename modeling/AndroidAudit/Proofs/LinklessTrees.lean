import AndroidAudit.Command.Basic
import AndroidAudit.Proofs.ShownPaths
import AndroidAudit.Proofs.TreeWalk

/-!
# Trees without links

Below a directory without links a host follows names one by one, and no step leads upwards or
elsewhere. `Node.reach` is that search, by the tree below the directory alone. The path of a place
(`FileTree.absolute`) leads to the directory through its names, so `FileTree.Holds.spot_absolute` says what
a host finds below the directory, whatever the path is followed for.
-/

namespace AndroidAudit

open Text (Symbol)

/-- No link stands below a node. -/
def Node.Linkless (node : Node) : Prop :=
  node.EveryDir fun entries => ∀ e ∈ entries, ∀ target, e.2 ≠ .link target

theorem Node.Linkless.of_lookup {entries : List (Name × Node)} {closed : Bool}
    (h : (Node.dir entries closed).Linkless) {n : Name} {below : Node} (hl : entries.lookup n = some below) :
    below.Linkless ∧ ∀ target, below ≠ .link target := by
  obtain ⟨hentries, hbelow⟩ := everyDir_dir.mp h
  have hmem := mem_of_lookup hl
  exact ⟨hbelow _ hmem, hentries _ hmem⟩

/-! ## The path of a place -/

namespace FileTree

theorem absolute_eq_descend {place : List Name} (h : ∀ n ∈ place, n.Plain) :
    absolute place = (absolute []).descend place := by
  by_cases hne : place = []
  · rw [hne]
    rfl
  · obtain ⟨n, ns, rfl⟩ := List.exists_cons_of_ne_nil hne
    have hrel := Path.isAbsolute_joinNames (h n List.mem_cons_self) ns
    rw [← Path.join_joinNames _ hne h, Path.join, hrel]
    rfl

theorem absolute_append {place more : List Name} (hplace : ∀ n ∈ place, n.Plain)
    (hmore : ∀ n ∈ more, n.Plain) : absolute (place ++ more) = (absolute place).descend more := by
  rw [absolute_eq_descend (List.forall_mem_append.mpr ⟨hplace, hmore⟩), Path.descend_append,
    ← absolute_eq_descend hplace]

/-- The path of a place is no longer than the paths below it. -/
theorem byteCount_absolute_append {place more : List Name} (hplace : ∀ n ∈ place, n.Plain)
    (hmore : ∀ n ∈ more, n.Plain) :
    byteCount (absolute place).symbols ≤ byteCount (absolute (place ++ more)).symbols := by
  rw [absolute_append hplace hmore]
  exact byteCount_descend _ hmore

theorem isAbsolute_absolute (place : List Name) : (absolute place).isAbsolute = true := rfl

theorem route_absolute {place : List Name} (hne : place ≠ []) (h : ∀ n ∈ place, n.Plain) :
    route (absolute place) = place := by
  rw [absolute_eq_descend h, route_descend _ hne h]
  rfl

theorem parent?_absolute {place : List Name} {n : Name} (hplace : ∀ m ∈ place, m.Plain)
    (hn : n.Plain) : (absolute (place ++ [n])).parent? = some (absolute place) := by
  have h : ∀ m ∈ place ++ [n], m.Plain := List.forall_mem_append.mpr ⟨hplace, by simpa using hn⟩
  have hbegin : (absolute (place ++ [n])).begin = (some .root, place ++ [n]) := by
    rw [Path.begin_eq, isAbsolute_absolute, absolute_eq_descend h,
      Path.split_descend _ (by simp) h]
    rfl
  rw [Path.parent?, hbegin]
  simp only [Path.trimEnd_of_plain h, List.reverse_append, List.reverse_singleton, List.singleton_append,
    List.reverse_reverse, Path.trimEnd_of_plain hplace]
  rfl

theorem nul_not_mem_absolute {place : List Name} (h : ∀ n ∈ place, n.Plain)
    (hnul : ∀ n ∈ place, Symbol.char '\x00' ∉ n) :
    (absolute place).symbols.contains (.char '\x00') = false := by
  rw [List.contains_eq_mem, decide_eq_false_iff_not, absolute_eq_descend h]
  intro hs
  rcases Path.mem_symbols_descend h hs with hs | hs | ⟨n, hn, hs⟩
  · exact absurd hs (by decide)
  · cases hs
  · exact hnul n hn hs

/-! ## Following names -/

/-- Names that lead through directories lead a search through them. -/
theorem walkTo_dirs {root : Node} {aim : Aim} {links : Nat} {place names rest : List Name}
    {entries : List (Name × Node)} {closed : Bool}
    (h : root.get? (place ++ names) = some (.dir entries closed)) (hnames : ∀ n ∈ names, n.Allowed)
    (hrest : rest ≠ [[]]) :
    walkTo root aim links place (names ++ rest) = walkTo root aim links (place ++ names) rest := by
  induction names generalizing place with
  | nil => rw [List.append_nil, List.nil_append]
  | cons n names ih =>
    obtain ⟨hn, hnames⟩ := List.forall_mem_cons.mp hnames
    obtain ⟨es, closed', hhere⟩ := Node.dir_of_get?_append h (List.cons_ne_nil n names)
    rw [List.append_cons] at h
    have hnext : ∃ es' closed', es.lookup n = some (.dir es' closed') := by
      rw [← Node.get?_concat hhere]
      by_cases hnil : names = []
      · subst hnil
        rw [List.append_nil] at h
        exact ⟨entries, closed, h⟩
      · exact Node.dir_of_get?_append h hnil
    obtain ⟨es', closed'', hlookup⟩ := hnext
    have hslash : names ++ rest ≠ [[]] := by
      cases names with
      | nil => exact hrest
      | cons m names =>
        intro e
        exact (hnames m List.mem_cons_self).ne_nil (List.cons.inj e).1
    have hturns : Turns root aim links place n (names ++ rest) (.go links (place ++ [n]) (names ++ rest)) :=
      .below (.of_plain hn.toPlain hn.short hhere fun e => hslash e.2) hlookup (by simp)
    rw [List.cons_append, hturns.walkTo_go, ih h hnames, ← List.append_cons]

end FileTree

/-- Follows names below a node that stands at a place. -/
def Node.reach (place : List Name) : Node → List Name → Except SysError Spot
  | node, [] => .ok (.taken place node)
  | .dir entries _, n :: rest =>
    if maxNameBytes < FileTree.byteCount n then .error .nameTooLong
    else match entries.lookup n with
      | none => if rest.isEmpty then .ok (.vacant place n) else .error .notFound
      | some below => below.reach (place ++ [n]) rest
  | .file _ _, _ :: _ => .error .notDirectory
  | .link _, _ :: _ => .error .notDirectory

theorem FileTree.walkTo_eq_reach {root : Node} {aim : Aim} {links : Nat} {place names : List Name}
    {node : Node} (hplace : root.get? place = some node) (hl : node.Linkless)
    (hnames : ∀ n ∈ names, n.Plain) : walkTo root aim links place names = node.reach place names := by
  induction names generalizing place node with
  | nil => rw [walkTo_nil hplace, Node.reach]
  | cons n names ih =>
    obtain ⟨hn, hnames⟩ := List.forall_mem_cons.mp hnames
    cases node with
    | file bytes closed => rw [(Turns.blocked hplace rfl).walkTo_stop, Node.reach]
    | link target => rw [(Turns.blocked hplace rfl).walkTo_stop, Node.reach]
    | dir entries closed =>
      have hslash : ¬ (aim = .file ∧ names = [[]]) := by
        rintro ⟨-, rfl⟩
        exact (hnames [] List.mem_cons_self).ne_nil rfl
      rw [Node.reach]
      by_cases hlong : maxNameBytes < byteCount n
      · rw [if_pos hlong]
        exact (Turns.overlong hplace (Path.idle_of_plain hn) hn.ne_up hslash hlong).walkTo_stop
      rw [if_neg hlong]
      have hlooks : LooksUp root aim place n names entries :=
        .of_plain hn (Nat.not_lt.mp hlong) hplace hslash
      cases hlookup : entries.lookup n with
      | none =>
        cases names with
        | nil => exact (Turns.vacant hlooks hlookup rfl).walkTo_stop
        | cons m names => exact (Turns.missing hlooks hlookup (List.cons_ne_nil _ _)).walkTo_stop
      | some below =>
        obtain ⟨hbelow, hlink⟩ := hl.of_lookup hlookup
        have hnext : root.get? (place ++ [n]) = some below := by rw [Node.get?_concat hplace, hlookup]
        rw [(Turns.below hlooks hlookup hlink).walkTo_go]
        exact ih hnext hbelow hnames

/-! ## Paths below a directory without links -/

/-- A directory without links that stands at a place to which a host can be led. -/
structure FileTree.Holds (t : FileTree) (place : List Name) (entries : List (Name × Node))
    (closed : Bool) : Prop where
  get? : t.root.get? place = some (.dir entries closed)
  allowed : ∀ n ∈ place, n.Allowed
  linkless : (Node.dir entries closed).Linkless

namespace FileTree.Holds

variable {t : FileTree} {place names : List Name} {entries : List (Name × Node)} {closed : Bool}
  {aim : Aim}

theorem plain (h : t.Holds place entries closed) : ∀ n ∈ place, n.Plain :=
  fun n hn => (h.allowed n hn).toPlain

/-- What a host finds below a directory without links. -/
theorem spot_absolute (h : t.Holds place entries closed) (hnames : ∀ n ∈ names, n.Plain)
    (hnul : ∀ n ∈ names, Symbol.char '\x00' ∉ n) :
    t.spot aim (absolute (place ++ names)) =
      if maxPathBytes < byteCount (absolute (place ++ names)).symbols then .error .nameTooLong
      else (Node.dir entries closed).reach place names := by
  have hall : ∀ n ∈ place ++ names, n.Plain := List.forall_mem_append.mpr ⟨h.plain, hnames⟩
  have hnul' := nul_not_mem_absolute hall
    (List.forall_mem_append.mpr ⟨fun n hn => (h.allowed n hn).no_nul, hnul⟩)
  rw [spot, hnul', isAbsolute_absolute]
  have hne : (absolute (place ++ names)).symbols.isEmpty = false := rfl
  simp only [hne, Bool.false_eq_true, if_false, if_true]
  refine if_congr Iff.rfl rfl ?_
  by_cases hnil : place ++ names = []
  · -- the root directory itself, whose path ends with a slash
    obtain ⟨rfl, rfl⟩ := List.append_eq_nil_iff.mp hnil
    show walkTo t.root aim maxLinks [] [[]] = _
    rw [(Turns.idle h.get? rfl).walkTo_go, walkTo_nil h.get?, Node.reach]
  · have hslash : names ≠ [[]] := by
      rintro rfl
      exact (hnames [] List.mem_cons_self).ne_nil rfl
    rw [route_absolute hnil hall, walkTo_dirs h.get? h.allowed hslash, List.nil_append,
      walkTo_eq_reach h.get? h.linkless hnames]

theorem node_absolute (h : t.Holds place entries closed)
    (hshort : byteCount (absolute place).symbols ≤ maxPathBytes) :
    t.node aim (absolute place) = .ok (.dir entries closed) := by
  have hspot := @spot_absolute t place [] entries closed aim h (by simp) (by simp)
  rw [List.append_nil, if_neg (Nat.not_lt.mpr hshort), Node.reach] at hspot
  rw [node, hspot]

/-- A step down and one up again lead back to the directory. -/
theorem walkTo_up (h : t.Holds place entries closed) {n : Name} (hn : n.Allowed)
    {es : List (Name × Node)} {closed' : Bool} (hl : entries.lookup n = some (.dir es closed'))
    (hnames : ∀ n ∈ names, n.Plain) (links : Nat) :
    walkTo t.root aim links [] (place ++ n :: [Path.dot, Path.dot] :: names) =
      (Node.dir entries closed).reach place names := by
  have hdown : t.root.get? ([] ++ (place ++ [n])) = some (.dir es closed') := by
    rw [List.nil_append, Node.get?_concat h.get?, hl]
  have hall : ∀ m ∈ place ++ [n], m.Allowed :=
    List.forall_mem_append.mpr ⟨h.allowed, by simpa using hn⟩
  rw [List.append_cons, walkTo_dirs hdown hall (by simp), List.nil_append]
  rw [List.nil_append] at hdown
  rw [(Turns.up hdown rfl).walkTo_go, List.dropLast_concat, walkTo_eq_reach h.get? h.linkless hnames]

end FileTree.Holds

end AndroidAudit
