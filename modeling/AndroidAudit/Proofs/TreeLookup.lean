import AndroidAudit.Proofs.PathNames

/-!
# Looking below a path

What one segment of a search comes to is said once, by `FileTree.Turns`, which is the graph of
`FileTree.turn`. All else that is said of searches rests on it, by `FileTree.search_induction`.

A path that leads to a directory may be followed by names, and then leads to what stands there below
the directory (`FileTree.node_descend`), if the host takes a path of that length
(`FileTree.node_of_tooLong`). No link is met behind the path, so how many were met on it does
not matter: `walkTo_resume` says that the search goes on from the place of the directory. The current
directory can be spelled at any length (`FileTree.spot_dots`), so a short name may have a long path.
-/

namespace AndroidAudit

open Text (Symbol)

/-- A name that a host allows for an entry. -/
structure Name.Legal (n : Name) : Prop extends Name.Plain n where
  text : ∃ s : String, n = Name.ofString s
  no_nul : Symbol.char '\x00' ∉ n
  short : FileTree.byteCount n ≤ maxNameBytes

/-- A name that a host allows for an entry, be it text or not. -/
structure Name.Allowed (n : Name) : Prop extends Name.Plain n where
  no_nul : Symbol.char '\x00' ∉ n
  short : FileTree.byteCount n ≤ maxNameBytes

instance (n : Name) : Decidable n.Allowed :=
  decidable_of_iff (n.Plain ∧ Symbol.char '\x00' ∉ n ∧ FileTree.byteCount n ≤ maxNameBytes)
    ⟨fun ⟨h₁, h₂, h₃⟩ => { h₁ with no_nul := h₂, short := h₃ },
      fun h => ⟨h.toPlain, h.no_nul, h.short⟩⟩

theorem Name.Legal.allowed {n : Name} (h : n.Legal) : n.Allowed :=
  { h.toPlain with no_nul := h.no_nul, short := h.short }

namespace Node

theorem get?_append (node : Node) (a b : List Name) :
    node.get? (a ++ b) = (node.get? a).bind (·.get? b) := by
  induction a generalizing node with
  | nil => rfl
  | cons n a ih =>
    rw [List.cons_append, get?, get?]
    cases node.child? n with
    | none => rfl
    | some below => exact ih below

theorem get?_concat {node : Node} {place : List Name} {entries : List (Name × Node)} {closed : Bool}
    (h : node.get? place = some (.dir entries closed)) (n : Name) :
    node.get? (place ++ [n]) = entries.lookup n := by
  rw [get?_append, h, Option.bind_some, get?, child?]
  cases entries.lookup n <;> rfl

theorem get?_cons (entries : List (Name × Node)) (closed : Bool) (n : Name) (place : List Name) :
    (Node.dir entries closed).get? (n :: place) = (entries.lookup n).bind (·.get? place) := by
  rw [get?, child?]
  cases entries.lookup n <;> rfl

/-- What has something below it is a directory. -/
theorem dir_of_get?_cons {node m : Node} {n : Name} {place : List Name}
    (h : node.get? (n :: place) = some m) : ∃ entries closed below,
      node = .dir entries closed ∧ entries.lookup n = some below ∧ below.get? place = some m := by
  cases node with
  | file bytes closed => cases h
  | link target => cases h
  | dir entries closed =>
    rw [get?_cons, Option.bind_eq_some_iff] at h
    obtain ⟨below, hl, hbelow⟩ := h
    exact ⟨entries, closed, below, rfl, hl, hbelow⟩

/-- What stands on the way to something is a directory. -/
theorem dir_of_get?_append {node m : Node} {a b : List Name} (h : node.get? (a ++ b) = some m)
    (hb : b ≠ []) : ∃ entries closed, node.get? a = some (.dir entries closed) := by
  rw [get?_append, Option.bind_eq_some_iff] at h
  obtain ⟨mid, hmid, hrest⟩ := h
  obtain ⟨n, b, rfl⟩ := List.exists_cons_of_ne_nil hb
  obtain ⟨entries, closed, -, rfl, -⟩ := dir_of_get?_cons hrest
  exact ⟨entries, closed, hmid⟩

/-- What is a directory has entries. -/
theorem eq_dir_of_isDir {node : Node} (h : node.isDir = true) :
    ∃ entries closed, node = .dir entries closed := by
  cases node with
  | dir entries closed => exact ⟨entries, closed, rfl⟩
  | file bytes closed => cases h
  | link target => cases h

end Node

namespace FileTree

/-! ## Routes -/

/-- The segments of a path that are not empty. -/
def named (p : Path) : List Name := (Path.split p.symbols).filter (· ≠ [])

theorem route_eq (p : Path) : route p = named p ∨ route p = named p ++ [[]] := by
  rw [route]
  split
  · exact .inr rfl
  · exact .inl rfl

theorem route_descend (p : Path) {place : List Name} (hne : place ≠ []) (h : ∀ n ∈ place, n.Plain) :
    route (p.descend place) = named p ++ place := by
  have hlast : ((p.descend place).symbols.getLast? == some Path.slash) = false := by
    obtain ⟨n, hn, q, hq⟩ := Path.exists_descend_eq_child p hne
    rw [hq, beq_eq_false_iff_ne]
    exact Path.getLast?_symbols_child q (h n hn)
  have hlead : p.lead.filter (· ≠ []) = named p := by
    rw [named]
    rcases Path.split_eq_lead p with e | e
    · rw [e]
    · rw [e, List.filter_append]
      simp
  have hplace : place.filter (· ≠ []) = place :=
    List.filter_eq_self.mpr fun n hn => by simpa using (h n hn).ne_nil
  rw [route, hlast, Path.split_descend p hne h, List.filter_append, hlead, hplace]
  rfl

/-! ## One segment -/

section

variable {root : Node} {aim : Aim} {links : Nat} {place rest : List Name} {n : Name}
  {entries : List (Name × Node)} {closed : Bool}

/-- The segment of a search is a name that is looked up in a directory. -/
structure LooksUp (root : Node) (aim : Aim) (place : List Name) (n : Name) (rest : List Name)
    (entries : List (Name × Node)) : Prop where
  dir : ∃ closed, root.get? place = some (.dir entries closed)
  not_idle : Path.idle n = false
  not_up : n ≠ [Path.dot, Path.dot]
  not_slashed : ¬ (aim = .file ∧ rest = [[]])
  short : byteCount n ≤ maxNameBytes

/-- What comes of the first segment of a search, in all the ways there are. -/
inductive Turns (root : Node) (aim : Aim) (links : Nat) (place : List Name) (n : Name)
    (rest : List Name) : Turn → Prop where
  | lost : root.get? place = none → Turns root aim links place n rest (.stop (.error .notFound))
  | blocked {node : Node} : root.get? place = some node → node.isDir = false →
      Turns root aim links place n rest (.stop (.error .notDirectory))
  | idle {entries : List (Name × Node)} {closed : Bool} : root.get? place = some (.dir entries closed) →
      Path.idle n = true → Turns root aim links place n rest (.go links place rest)
  | up {entries : List (Name × Node)} {closed : Bool} : root.get? place = some (.dir entries closed) →
      n = [Path.dot, Path.dot] → Turns root aim links place n rest (.go links place.dropLast rest)
  | slashed {entries : List (Name × Node)} {closed : Bool} :
      root.get? place = some (.dir entries closed) → Path.idle n = false → n ≠ [Path.dot, Path.dot] →
      aim = .file ∧ rest = [[]] → Turns root aim links place n rest (.stop (.error .isDirectory))
  | overlong {entries : List (Name × Node)} {closed : Bool} :
      root.get? place = some (.dir entries closed) → Path.idle n = false → n ≠ [Path.dot, Path.dot] →
      ¬ (aim = .file ∧ rest = [[]]) → maxNameBytes < byteCount n →
      Turns root aim links place n rest (.stop (.error .nameTooLong))
  | vacant {entries : List (Name × Node)} : LooksUp root aim place n rest entries →
      entries.lookup n = none → rest = [] →
      Turns root aim links place n rest (.stop (.ok (.vacant place n)))
  | missing {entries : List (Name × Node)} : LooksUp root aim place n rest entries →
      entries.lookup n = none → rest ≠ [] → Turns root aim links place n rest (.stop (.error .notFound))
  /-- A link at the end of the path, which is not followed. -/
  | entry {entries : List (Name × Node)} {target : Path} : LooksUp root aim place n rest entries →
      entries.lookup n = some (.link target) → rest = [] ∧ aim = .entry →
      Turns root aim links place n rest (.stop (.ok (.taken (place ++ [n]) (.link target))))
  | spent {entries : List (Name × Node)} {target : Path} : LooksUp root aim place n rest entries →
      entries.lookup n = some (.link target) → ¬ (rest = [] ∧ aim = .entry) → links = 0 →
      Turns root aim links place n rest (.stop (.error .tooManyLinks))
  | dangling {entries : List (Name × Node)} {target : Path} {links' : Nat} :
      LooksUp root aim place n rest entries → entries.lookup n = some (.link target) →
      ¬ (rest = [] ∧ aim = .entry) → links = links' + 1 → target.symbols = [] →
      Turns root aim links place n rest (.stop (.error .notFound))
  | link {entries : List (Name × Node)} {target : Path} {links' : Nat} :
      LooksUp root aim place n rest entries → entries.lookup n = some (.link target) →
      ¬ (rest = [] ∧ aim = .entry) → links = links' + 1 → target.symbols ≠ [] →
      Turns root aim links place n rest
        (.go links' (if target.isAbsolute then [] else place) (route target ++ rest))
  | below {entries : List (Name × Node)} {node : Node} : LooksUp root aim place n rest entries →
      entries.lookup n = some node → (∀ target, node ≠ .link target) →
      Turns root aim links place n rest (.go links (place ++ [n]) rest)

theorem LooksUp.of_plain (hn : n.Plain) (hshort : byteCount n ≤ maxNameBytes)
    (hdir : root.get? place = some (.dir entries closed)) (hslash : ¬ (aim = .file ∧ rest = [[]])) :
    LooksUp root aim place n rest entries :=
  ⟨⟨closed, hdir⟩, Path.idle_of_plain hn, hn.ne_up, hslash, hshort⟩

theorem turns_turn (root : Node) (aim : Aim) (links : Nat) (place : List Name) (n : Name)
    (rest : List Name) : Turns root aim links place n rest (turn root aim links place n rest) := by
  rw [turn]
  split
  case h_1 entries closed hdir =>
    split_ifs with hidle hup hslash hlong
    · exact .idle hdir hidle
    · exact .up hdir hup
    · exact .slashed hdir (by simpa using hidle) hup hslash
    · exact .overlong hdir (by simpa using hidle) hup hslash hlong
    have hlooks : LooksUp root aim place n rest entries :=
      ⟨⟨closed, hdir⟩, by simpa using hidle, hup, hslash, Nat.not_lt.mp hlong⟩
    rw [enter.eq_def]
    split
    case h_1 hl =>
      split_ifs with hrest
      · exact .vacant hlooks hl hrest
      · exact .missing hlooks hl hrest
    case h_2 target hl =>
      by_cases hend : rest = [] ∧ aim = .entry
      · rw [if_pos hend]
        exact .entry hlooks hl hend
      rw [if_neg hend]
      cases links with
      | zero => exact .spent hlooks hl hend rfl
      | succ links =>
        by_cases hempty : target.symbols = []
        · simp only [hempty, if_true]
          exact .dangling hlooks hl hend rfl hempty
        · simp only [hempty, if_false]
          exact .link hlooks hl hend rfl hempty
    case h_3 node hlink hl => exact .below hlooks hl hlink
  case h_2 node hnode hplace =>
    refine .blocked hplace ?_
    cases node with
    | dir entries closed => exact absurd rfl (hnode entries closed)
    | file bytes closed => rfl
    | link target => rfl
  case h_3 hplace => exact .lost hplace

theorem LooksUp.turn_eq (h : LooksUp root aim place n rest entries) :
    turn root aim links place n rest = enter aim links place n rest (entries.lookup n) := by
  obtain ⟨closed, hdir⟩ := h.dir
  simp only [turn, hdir, h.not_idle, h.not_up, h.not_slashed, Nat.not_lt.mpr h.short, if_false,
    Bool.false_eq_true]

/-- The first segment of a search can be taken in one way only. -/
theorem Turns.turn_eq {τ : Turn} (h : Turns root aim links place n rest τ) :
    turn root aim links place n rest = τ := by
  cases h with
  | lost hplace => simp only [turn, hplace]
  | @blocked node hplace hnode =>
    cases node with
    | dir entries closed => cases hnode
    | file bytes closed => simp only [turn, hplace]
    | link target => simp only [turn, hplace]
  | idle hdir hidle => simp only [turn, hdir, hidle, if_true]
  | up hdir hup =>
    subst hup
    simp only [turn, hdir, if_true]
    rfl
  | slashed hdir hidle hup hslash =>
    simp only [turn, hdir, hidle, hup, hslash, if_false, Bool.false_eq_true, and_self, if_true]
  | overlong hdir hidle hup hslash hlong =>
    simp only [turn, hdir, hidle, hup, hslash, hlong, if_false, Bool.false_eq_true, if_true]
  | vacant hlooks hl hrest => rw [hlooks.turn_eq, hl, enter, if_pos hrest]
  | missing hlooks hl hrest => rw [hlooks.turn_eq, hl, enter, if_neg hrest]
  | entry hlooks hl hend => simp only [hlooks.turn_eq, hl, enter, if_pos hend]
  | spent hlooks hl hend hlinks =>
    subst hlinks
    rw [hlooks.turn_eq, hl, enter, if_neg hend]
  | dangling hlooks hl hend hlinks hempty =>
    subst hlinks
    simp only [hlooks.turn_eq, hl, enter, if_neg hend, hempty, if_true]
  | link hlooks hl hend hlinks hempty =>
    subst hlinks
    simp only [hlooks.turn_eq, hl, enter, if_neg hend, hempty, if_false]
  | @below entries node hlooks hl hlink =>
    cases node with
    | link target => exact absurd rfl (hlink target)
    | file bytes closed => rw [hlooks.turn_eq, hl, enter]; exact hlink
    | dir _ closed => rw [hlooks.turn_eq, hl, enter]; exact hlink

theorem walkTo_nil {node : Node} (h : root.get? place = some node) :
    walkTo root aim links place [] = .ok (.taken place node) := by
  rw [walkTo, h]

theorem walkTo_nil_eq_ok {found : Spot} (h : walkTo root aim links place [] = .ok found) :
    ∃ node, root.get? place = some node ∧ found = .taken place node := by
  cases hplace : root.get? place with
  | none =>
    rw [walkTo, hplace] at h
    cases h
  | some node =>
    rw [walkTo_nil hplace] at h
    exact ⟨node, rfl, (Except.ok.inj h).symm⟩

theorem Turns.walkTo_stop {result : Except SysError Spot}
    (h : Turns root aim links place n rest (.stop result)) :
    walkTo root aim links place (n :: rest) = result := by
  rw [walkTo]
  split
  · rename_i hstop
    exact Turn.stop.inj (hstop.symm.trans h.turn_eq)
  · rename_i hgo
    cases hgo.symm.trans h.turn_eq

theorem Turns.walkTo_go {links' : Nat} {place' todo : List Name}
    (h : Turns root aim links place n rest (.go links' place' todo)) :
    walkTo root aim links place (n :: rest) = walkTo root aim links' place' todo := by
  rw [walkTo]
  split
  · rename_i hstop
    cases hstop.symm.trans h.turn_eq
  · rename_i hgo
    cases hgo.symm.trans h.turn_eq
    rfl

end

/-- Induction on the course of a search. -/
theorem search_induction (root : Node) (aim : Aim) {motive : Nat → List Name → List Name → Prop}
    (done : ∀ links place, motive links place [])
    (stop : ∀ links place n rest result, Turns root aim links place n rest (.stop result) →
      motive links place (n :: rest))
    (go : ∀ links place n rest links' place' todo,
      Turns root aim links place n rest (.go links' place' todo) → motive links' place' todo →
      motive links place (n :: rest))
    (links : Nat) (place todo : List Name) : motive links place todo := by
  cases todo with
  | nil => exact done links place
  | cons n rest =>
    have hturns := turns_turn root aim links place n rest
    cases h : turn root aim links place n rest with
    | stop result => exact stop _ _ _ _ result (h ▸ hturns)
    | go links' place' todo' =>
      have := turn_shorter h
      exact go _ _ _ _ _ _ _ (h ▸ hturns) (search_induction root aim done stop go links' place' todo')
termination_by (links, todo.length)
decreasing_by
  rcases this with hless | ⟨rfl, rfl⟩
  · exact Prod.Lex.left _ _ hless
  · exact Prod.Lex.right _ (Nat.lt_succ_self _)

/-! ## Following segments -/

/-- What a search finds stands at the place that it found. -/
theorem get?_of_walkTo {root : Node} {aim : Aim} {links : Nat} {place todo : List Name}
    {place' : List Name} {node : Node}
    (h : walkTo root aim links place todo = .ok (.taken place' node)) : root.get? place' = some node := by
  induction links, place, todo using search_induction root aim with
  | done links place =>
    obtain ⟨m, hm, hfound⟩ := walkTo_nil_eq_ok h
    cases hfound
    exact hm
  | stop links place n rest result hturns =>
    rw [hturns.walkTo_stop] at h
    subst h
    cases hturns with
    | entry hlooks hl _ =>
      obtain ⟨closed, hdir⟩ := hlooks.dir
      rw [Node.get?_concat hdir, hl]
  | go links place n rest links' place' todo hturns ih => exact ih (hturns.walkTo_go ▸ h)

/-- A name that a search finds vacant is one that its directory lacks. -/
theorem vacant_of_walkTo {root : Node} {aim : Aim} {links : Nat} {place todo dir : List Name} {n : Name}
    (h : walkTo root aim links place todo = .ok (.vacant dir n)) :
    ∃ entries closed, root.get? dir = some (.dir entries closed) ∧ entries.lookup n = none := by
  induction links, place, todo using search_induction root aim with
  | done links place =>
    obtain ⟨m, hm, hfound⟩ := walkTo_nil_eq_ok h
    cases hfound
  | stop links place n rest result hturns =>
    rw [hturns.walkTo_stop] at h
    subst h
    cases hturns with
    | vacant hlooks hl _ =>
      obtain ⟨closed, hdir⟩ := hlooks.dir
      exact ⟨_, closed, hdir, hl⟩
  | go links place n rest links' place' todo hturns ih => exact ih (hturns.walkTo_go ▸ h)

theorem get?_of_spot {t : FileTree} {aim : Aim} {p : Path} {place : List Name} {node : Node}
    (h : t.spot aim p = .ok (.taken place node)) : t.root.get? place = some node := by
  rw [spot] at h
  split_ifs at h <;> exact get?_of_walkTo h

theorem vacant_of_spot {t : FileTree} {aim : Aim} {p : Path} {dir : List Name} {n : Name}
    (h : t.spot aim p = .ok (.vacant dir n)) :
    ∃ entries closed, t.root.get? dir = some (.dir entries closed) ∧ entries.lookup n = none := by
  rw [spot] at h
  split_ifs at h <;> exact vacant_of_walkTo h

theorem LooksUp.of_target {root : Node} {place rest : List Name} {n : Name}
    {entries : List (Name × Node)} (h : LooksUp root .target place n rest entries) (rest' : List Name) :
    LooksUp root .target place n rest' entries :=
  { h with not_slashed := fun hslash => by cases hslash.1 }

/-- What follows a segment has no part in how a search for a target goes on from it. -/
theorem Turns.of_target {root : Node} {links links' : Nat} {place place' rest todo : List Name} {n : Name}
    (h : Turns root .target links place n rest (.go links' place' todo)) :
    ∃ more, todo = more ++ rest ∧
      ∀ rest', Turns root .target links place n rest' (.go links' place' (more ++ rest')) := by
  cases h with
  | idle hdir hidle => exact ⟨[], rfl, fun _ => .idle hdir hidle⟩
  | up hdir hup => exact ⟨[], rfl, fun _ => .up hdir hup⟩
  | link hlooks hl hend hlinks hempty =>
    exact ⟨_, rfl, fun rest' =>
      .link (hlooks.of_target rest') hl (fun hend => by cases hend.2) hlinks hempty⟩
  | below hlooks hl hlink => exact ⟨[], rfl, fun rest' => .below (hlooks.of_target rest') hl hlink⟩

/-- A search that leads to a directory goes on from there, whatever follows in place of the end of
the path or of the slash at its end. -/
theorem walkTo_resume {root : Node} {tail : List Name} (htail : tail = [] ∨ tail = [[]])
    {place' : List Name} {entries : List (Name × Node)} {closed : Bool} (links : Nat)
    (place a : List Name)
    (h : walkTo root .target links place (a ++ tail) = .ok (.taken place' (.dir entries closed))) :
    ∃ links', ∀ b, walkTo root .target links place (a ++ b) = walkTo root .target links' place' b := by
  generalize htodo : a ++ tail = todo at h
  induction links, place, todo using search_induction root .target generalizing a with
  | done links place =>
    obtain ⟨rfl, -⟩ := List.append_eq_nil_iff.mp htodo
    obtain ⟨m, -, hfound⟩ := walkTo_nil_eq_ok h
    cases hfound
    exact ⟨links, fun b => rfl⟩
  | stop links place n rest result hturns =>
    rw [hturns.walkTo_stop] at h
    subst h
    cases hturns
  | go links place n rest links₁ place₁ todo hturns ih =>
    rw [hturns.walkTo_go] at h
    cases a with
    | nil =>
      -- the slash at the end of the path
      obtain ⟨rfl, rfl⟩ : n = [] ∧ rest = [] := by
        rcases htail with rfl | rfl
        · cases htodo
        · exact ⟨(List.cons.inj htodo).1.symm, (List.cons.inj htodo).2.symm⟩
      cases hturns with
      | idle hdir hidle =>
        obtain ⟨m, -, hfound⟩ := walkTo_nil_eq_ok h
        cases hfound
        exact ⟨links, fun b => rfl⟩
      | up hdir hup => cases hup
      | link hlooks => cases hlooks.not_idle
      | below hlooks => cases hlooks.not_idle
    | cons m a =>
      obtain ⟨rfl, rfl⟩ := List.cons.inj htodo
      obtain ⟨more, rfl, hmore⟩ := hturns.of_target
      obtain ⟨links', hb⟩ := ih (more ++ a) (List.append_assoc ..) h
      refine ⟨links', fun b => ?_⟩
      rw [List.cons_append, (hmore _).walkTo_go, ← List.append_assoc]
      exact hb b

/-- Names lead a search to what stands there, unless that is a link. -/
theorem walkTo_names {root : Node} (links : Nat) {place names : List Name} {start node : Node}
    (hstart : root.get? place = some start) (hget : start.get? names = some node)
    (hlink : ∀ target, node ≠ .link target) (hnames : ∀ n ∈ names, n.Allowed) :
    walkTo root .target links place names = .ok (.taken (place ++ names) node) := by
  induction names generalizing place start with
  | nil =>
    rw [Node.get?, Option.some.injEq] at hget
    rw [walkTo_nil hstart, hget, List.append_nil]
  | cons n names ih =>
    obtain ⟨hn, hnames⟩ := List.forall_mem_cons.mp hnames
    obtain ⟨entries, closed, below, rfl, hlookup, hbelow⟩ := Node.dir_of_get?_cons hget
    have hbelowLink : ∀ target, below ≠ .link target := by
      rintro target rfl
      cases names with
      | nil => exact hlink target (Option.some.inj hbelow).symm
      | cons m names => cases hbelow
    have hnext : root.get? (place ++ [n]) = some below := by rw [Node.get?_concat hstart, hlookup]
    have hturns : Turns root .target links place n names (.go links (place ++ [n]) names) :=
      .below (.of_plain hn.toPlain hn.short hstart fun hslash => by cases hslash.1) hlookup hbelowLink
    rw [hturns.walkTo_go, ih hnext hbelow hnames, List.append_assoc, List.singleton_append]

/-- Where a path leads to a directory, so it does when a link at its end is not followed, or else it
leads to a link. -/
theorem walkTo_entry_of_target {root : Node} {links : Nat} {place todo place' : List Name}
    {entries : List (Name × Node)} {closed : Bool}
    (h : walkTo root .target links place todo = .ok (.taken place' (.dir entries closed))) :
    ∃ place₁ node, walkTo root .entry links place todo = .ok (.taken place₁ node) ∧
      (node = .dir entries closed ∨ ∃ target, node = .link target) := by
  induction links, place, todo using search_induction root .target with
  | done links place =>
    obtain ⟨m, hm, hfound⟩ := walkTo_nil_eq_ok h
    cases hfound
    exact ⟨_, _, walkTo_nil hm, .inl rfl⟩
  | stop links place n rest result hturns =>
    rw [hturns.walkTo_stop] at h
    subst h
    cases hturns
  | go links place n rest links' place₁ todo hturns ih =>
    rw [hturns.walkTo_go] at h
    have hentry {es : List (Name × Node)} (hlooks : LooksUp root .target place n rest es) :
        LooksUp root .entry place n rest es :=
      { hlooks with not_slashed := fun hslash => by cases hslash.1 }
    cases hturns with
    | idle hdir hidle => rw [(Turns.idle hdir hidle).walkTo_go]; exact ih h
    | up hdir hup => rw [(Turns.up hdir hup).walkTo_go]; exact ih h
    | below hlooks hl hlink => rw [(Turns.below (hentry hlooks) hl hlink).walkTo_go]; exact ih h
    | @link es target links' hlooks hl hend hlinks hempty =>
      by_cases hrest : rest = []
      · -- the link is the last segment, and the search for the entry ends with it
        exact ⟨place ++ [n], .link target, (Turns.entry (hentry hlooks) hl ⟨hrest, rfl⟩).walkTo_stop,
          .inr ⟨target, rfl⟩⟩
      · rw [(Turns.link (hentry hlooks) hl (fun hend => hrest hend.1) hlinks hempty).walkTo_go]
        exact ih h

/-! ## Nodes below a directory -/

theorem byteCount_append (a b : List Symbol) : byteCount (a ++ b) = byteCount a + byteCount b := by
  induction a with
  | nil => exact (Nat.zero_add _).symm
  | cons s a ih =>
    show s.byteCount + byteCount (a ++ b) = s.byteCount + byteCount a + byteCount b
    rw [ih, Nat.add_assoc]

theorem byteCount_child (p : Path) {n : Name} (h : n.Plain) :
    byteCount p.symbols ≤ byteCount (p.child n).symbols := by
  obtain ⟨b, hb, _⟩ := Path.symbols_child_eq_append p h
  rw [hb, byteCount_append, byteCount_append]
  omega

theorem byteCount_child_of_getLast? {p : Path} {n : Name} (h : n.Plain) (hne : p.symbols ≠ [])
    (hlast : p.symbols.getLast? ≠ some Path.slash) :
    byteCount (p.child n).symbols = byteCount p.symbols + (1 + byteCount n) := by
  have hslash : (decide (p.symbols = []) || p.symbols.getLast? == some Path.slash) = false := by
    simp [hne, hlast]
  rw [Path.symbols_child p h, hslash, if_neg Bool.false_ne_true, byteCount_append]
  rfl

theorem byteCount_descend (p : Path) {place : List Name} (h : ∀ n ∈ place, n.Plain) :
    byteCount p.symbols ≤ byteCount (p.descend place).symbols := by
  induction place generalizing p with
  | nil => exact Nat.le_refl _
  | cons n place ih =>
    obtain ⟨hn, h⟩ := List.forall_mem_cons.mp h
    exact Nat.le_trans (byteCount_child p hn) (ih (p.child n) h)

/-- A path that leads to a node is spelled with something, without NUL, and is not too long. -/
theorem spot_of_node {t : FileTree} {aim : Aim} {p : Path} {node : Node} (h : t.node aim p = .ok node) :
    p.symbols.contains (.char '\x00') = false ∧ p.symbols ≠ [] ∧ byteCount p.symbols ≤ maxPathBytes ∧
      ∃ place, walkTo t.root aim maxLinks (if p.isAbsolute then [] else t.cwd) (route p) =
        .ok (.taken place node) := by
  rw [FileTree.node, spot] at h
  by_cases hnul : p.symbols.contains (.char '\x00') = true
  · rw [if_pos hnul] at h
    cases h
  by_cases hempty : p.symbols.isEmpty = true
  · rw [if_neg hnul, if_pos hempty] at h
    cases h
  by_cases hlong : maxPathBytes < byteCount p.symbols
  · rw [if_neg hnul, if_neg hempty, if_pos hlong] at h
    cases h
  rw [if_neg hnul, if_neg hempty, if_neg hlong] at h
  refine ⟨by simpa using hnul, by simpa using hempty, Nat.not_lt.mp hlong, ?_⟩
  split at h
  · rename_i place _ hwalk
    cases h
    exact ⟨place, hwalk⟩
  · cases h
  · cases h

/-- What stands below a directory is found by the path of the directory and the names that lead
there, if the host takes a path of that length. -/
theorem node_descend {t : FileTree} {root : Path} {entries : List (Name × Node)} {closed : Bool}
    (hroot : t.node .target root = .ok (.dir entries closed)) {place : List Name} {node : Node}
    (hget : (Node.dir entries closed).get? place = some node) (hlink : ∀ target, node ≠ .link target)
    (hnames : ∀ n ∈ place, n.Allowed) (hshort : byteCount (root.descend place).symbols ≤ maxPathBytes) :
    t.node .target (root.descend place) = .ok node := by
  by_cases hne : place = []
  · subst hne
    rw [Node.get?, Option.some.injEq] at hget
    rw [Path.descend_nil, hroot, hget]
  obtain ⟨hnul, -, -, dir, hwalk⟩ := spot_of_node hroot
  have hplain : ∀ n ∈ place, n.Plain := fun n hn => (hnames n hn).toPlain
  have hnul' : (root.descend place).symbols.contains (.char '\x00') = false := by
    rw [List.contains_eq_mem, decide_eq_false_iff_not] at hnul ⊢
    intro hs
    rcases Path.mem_symbols_descend hplain hs with hs | hs | ⟨n, hn, hs⟩
    · exact hnul hs
    · cases hs
    · exact (hnames n hn).no_nul hs
  have hne' : (root.descend place).symbols.isEmpty = false := by
    simpa using Path.symbols_descend_ne_nil root hne hplain
  -- the search goes on from the place of the directory
  have hgo : ∃ links, ∀ b, walkTo t.root .target maxLinks (if root.isAbsolute then [] else t.cwd)
      (named root ++ b) = walkTo t.root .target links dir b := by
    rcases route_eq root with e | e
    · rw [e, ← List.append_nil (named root)] at hwalk
      exact walkTo_resume (.inl rfl) _ _ _ hwalk
    · rw [e] at hwalk
      exact walkTo_resume (.inr rfl) _ _ _ hwalk
  obtain ⟨links, hgo⟩ := hgo
  have hfound := walkTo_names links (get?_of_walkTo hwalk) hget hlink hnames
  rw [FileTree.node, spot, hnul', hne', Path.isAbsolute_descend root hplain,
    route_descend root hne hplain, hgo, hfound]
  simp [Nat.not_lt.mpr hshort]

/-- A path that is too long leads nowhere. -/
theorem node_of_tooLong {t : FileTree} {aim : Aim} {p : Path} (h : maxPathBytes < byteCount p.symbols) :
    ∃ e, t.node aim p = .error e := by
  cases hn : t.node aim p with
  | error e => exact ⟨e, rfl⟩
  | ok node => exact absurd h (Nat.not_lt.mpr (spot_of_node hn).2.2.1)

end FileTree

/-! ## The current directory -/

/-- The current directory, spelled with steps that lead nowhere. -/
def dots : Nat → List Text.Symbol
  | 0 => [Path.dot]
  | n + 1 => Path.dot :: Path.slash :: dots n

theorem byteCount_dots (n : Nat) : FileTree.byteCount (dots n) = 2 * n + 1 := by
  induction n with
  | zero => rfl
  | succ n ih =>
    have hstep : FileTree.byteCount (dots (n + 1)) = 1 + (1 + FileTree.byteCount (dots n)) := rfl
    omega

theorem split_dots (n : Nat) : Path.split (dots n) = List.replicate (n + 1) [Path.dot] := by
  induction n with
  | zero => rfl
  | succ n ih =>
    have hstep : dots (n + 1) = [Path.dot] ++ Path.slash :: dots n := rfl
    rw [hstep, Path.split_append_slash, ih]
    rfl

theorem mem_dots {n : Nat} {s : Text.Symbol} (h : s ∈ dots n) : s = Path.dot ∨ s = Path.slash := by
  induction n with
  | zero => exact .inl (List.mem_singleton.mp h)
  | succ n ih =>
    rcases List.mem_cons.mp h with h | h
    · exact .inl h
    rcases List.mem_cons.mp h with h | h
    · exact .inr h
    · exact ih h

theorem getLast?_dots (n : Nat) : (dots n).getLast? = some Path.dot := by
  induction n with
  | zero => rfl
  | succ n ih => simp [dots, List.getLast?_cons, ih]

theorem dots_ne_nil (n : Nat) : dots n ≠ [] := by cases n <;> simp [dots]

theorem byteCount_dots_child {n : Nat} {m : Name} (h : m.Plain) :
    FileTree.byteCount (Path.child ⟨dots n⟩ m).symbols = 2 * n + 2 + FileTree.byteCount m := by
  have hlast : (Path.mk (dots n)).symbols.getLast? ≠ some Path.slash := by
    rw [getLast?_dots]
    decide
  rw [FileTree.byteCount_child_of_getLast? h (dots_ne_nil n) hlast, byteCount_dots]
  omega

theorem FileTree.walkTo_dots {root : Node} {aim : Aim} {links : Nat} {place : List Name}
    {entries : List (Name × Node)} {closed : Bool} (h : root.get? place = some (.dir entries closed))
    (k : Nat) : walkTo root aim links place (List.replicate k [Path.dot]) =
      .ok (.taken place (.dir entries closed)) := by
  induction k with
  | zero => rw [List.replicate_zero, walkTo_nil h]
  | succ k ih => rw [List.replicate_succ, (Turns.idle h rfl).walkTo_go, ih]

/-- However it is spelled, the current directory is found, if the path is short enough. -/
theorem FileTree.spot_dots {t : FileTree} {aim : Aim} {entries : List (Name × Node)} {closed : Bool}
    (h : t.root.get? t.cwd = some (.dir entries closed)) {n : Nat} (hn : 2 * n + 1 ≤ maxPathBytes) :
    t.spot aim ⟨dots n⟩ = .ok (.taken t.cwd (.dir entries closed)) := by
  have hnul : (dots n).contains (.char '\x00') = false := by
    rw [List.contains_eq_mem, decide_eq_false_iff_not]
    intro hs
    rcases mem_dots hs with hs | hs <;> cases hs
  have habs : (Path.mk (dots n)).isAbsolute = false := by cases n <;> rfl
  have hroute : route ⟨dots n⟩ = List.replicate (n + 1) [Path.dot] := by
    rw [route, split_dots, getLast?_dots, List.filter_replicate_of_pos (by simp)]
    rfl
  rw [spot, hroute, habs]
  simp only [hnul, byteCount_dots, Nat.not_lt.mpr hn, Bool.false_eq_true, if_false,
    walkTo_dots h, List.isEmpty_iff, dots_ne_nil]

theorem FileTree.node_dots {t : FileTree} {aim : Aim} {entries : List (Name × Node)} {closed : Bool}
    (h : t.root.get? t.cwd = some (.dir entries closed)) {n : Nat} (hn : 2 * n + 1 ≤ maxPathBytes) :
    t.node aim ⟨dots n⟩ = .ok (.dir entries closed) := by
  rw [FileTree.node, spot_dots h hn]

end AndroidAudit
