import Mathlib.Data.List.DropRight
import AndroidAudit.Proofs.Reordering
import AndroidAudit.Proofs.TreeChanges

/-!
# What is made and written in a file tree

Here a tree may have links anywhere, so a path may lead far away from where its names seem to. One
node that is put at the place where a path leads changes nothing elsewhere, and the path leads to it
from then on (`FileTree.Placed`). Both making a directory and writing a file come to this
(`FileTree.placed_of_makeDir`, `FileTree.placed_of_write`).

Making a directory with those above it makes only directories to which the path or one above it leads,
and leaves all that stood, whether it fails or not (`FileTree.dirsMade_makeDirs`).
-/

namespace AndroidAudit

open Text (Symbol)

/-! ## Paths above a path -/

namespace Path

theorem slash_not_mem_of_mem_split {symbols : List Symbol} {n : Name} (hn : n ∈ split symbols) :
    slash ∉ n := by
  induction symbols generalizing n with
  | nil =>
    rw [split, List.mem_singleton] at hn
    rw [hn]
    exact List.not_mem_nil
  | cons c symbols ih =>
    rw [split] at hn
    split at hn
    · rcases List.mem_cons.mp hn with rfl | hn
      · exact List.not_mem_nil
      · exact ih hn
    · rename_i hc
      obtain ⟨m, ms, hsplit⟩ := List.exists_cons_of_ne_nil (split_ne_nil symbols)
      rw [hsplit] at hn ih
      rcases List.mem_cons.mp hn with rfl | hn
      · rw [List.mem_cons, not_or]
        exact ⟨fun e => hc e.symm, ih List.mem_cons_self⟩
      · exact ih (List.mem_cons_of_mem _ hn)

theorem slash_not_mem_of_mem_begin {p : Path} {n : Name} (hn : n ∈ p.begin.2) : slash ∉ n := by
  refine @slash_not_mem_of_mem_split p.symbols n ?_
  rw [begin_eq] at hn
  cases hsplit : split p.symbols with
  | nil => exact absurd hsplit (split_ne_nil _)
  | cons m ms =>
    rw [hsplit, beginOf] at hn
    split_ifs at hn
    · exact List.mem_cons_of_mem _ hn
    · exact List.mem_cons_of_mem _ hn
    · exact hn

theorem joinNames_concat (names : List Name) (n : Name) :
    ∃ before, joinNames (names ++ [n]) = before ++ n := by
  induction names with
  | nil => exact ⟨[], rfl⟩
  | cons m names ih =>
    obtain ⟨before, hbefore⟩ := ih
    refine ⟨m ++ slash :: before, ?_⟩
    obtain ⟨k, ks, hnames⟩ := List.exists_cons_of_ne_nil (l := names ++ [n]) (by simp)
    rw [hnames] at hbefore
    rw [List.cons_append, hnames]
    show m ++ slash :: joinNames (k :: ks) = _
    rw [hbefore, List.append_assoc, List.cons_append]

theorem spell_concat (first : Option Component) (names : List Name) (n : Name) :
    ∃ before, (spell first (names ++ [n])).symbols = before ++ n := by
  obtain ⟨before, hbefore⟩ := joinNames_concat names n
  obtain ⟨k, ks, hnames⟩ := List.exists_cons_of_ne_nil (l := names ++ [n]) (by simp)
  rw [hnames] at hbefore ⊢
  rcases first with _ | _ | _ | _ | _
  · exact ⟨before, hbefore⟩
  · exact ⟨slash :: before, congrArg (slash :: ·) hbefore⟩
  · exact ⟨dot :: slash :: before, congrArg (dot :: slash :: ·) hbefore⟩
  · exact ⟨before, hbefore⟩
  · exact ⟨before, hbefore⟩

theorem getLast?_spell (first : Option Component) {names : List Name} (h : ∀ n ∈ names, slash ∉ n) :
    (spell first (trimEnd names)).symbols.getLast? ≠ some slash ∨
      spell first (trimEnd names) = ⟨[slash]⟩ := by
  have htrim : trimEnd names = names.rdropWhile idle := rfl
  rcases (trimEnd names).eq_nil_or_concat with hnil | ⟨before, n, hconcat⟩
  · rw [hnil]
    rcases first with _ | _ | _ | _ | _
    · exact .inl (by simp [spell, joinNames])
    · exact .inr rfl
    · exact .inl (by decide)
    · exact .inl (by simp [spell, joinNames])
    · exact .inl (by simp [spell, joinNames])
  · left
    rw [List.concat_eq_append] at hconcat
    have hmem : n ∈ names := by
      refine (List.rdropWhile_prefix idle names).subset ?_
      rw [← htrim, hconcat]
      simp
    have hlast := List.rdropWhile_last_not idle names (by rw [← htrim, hconcat]; simp)
    simp only [← htrim, hconcat, List.getLast_append_singleton] at hlast
    have hne : n ≠ [] := by
      rintro rfl
      exact hlast rfl
    obtain ⟨spelled, hspelled⟩ := spell_concat first before n
    rw [hconcat, hspelled, List.getLast?_append_of_ne_nil _ hne]
    exact fun e => h n hmem (List.mem_of_getLast? e)

/-- A path above another has no slash at its end, unless it is the root. -/
theorem getLast?_of_parent? {p q : Path} (h : p.parent? = some q) :
    q.symbols.getLast? ≠ some slash ∨ q = ⟨[slash]⟩ := by
  simp only [parent?] at h
  split at h
  · rename_i last before hrev
    cases h
    refine getLast?_spell _ fun n hn => slash_not_mem_of_mem_begin (p := p) ?_
    refine (List.rdropWhile_prefix idle p.begin.2).subset (List.mem_reverse.mp ?_)
    show n ∈ (trimEnd p.begin.2).reverse
    rw [hrev]
    exact List.mem_cons_of_mem _ (List.mem_reverse.mp hn)
  · split_ifs at h
    cases h
    exact .inl (by simp [empty])

theorem mem_ancestors_go {k : Nat} {p a : Path} (h : a ∈ ancestors.go k p) :
    a = p ∨ ∃ b : Path, b.parent? = some a := by
  induction k generalizing p with
  | zero => exact .inl (List.mem_singleton.mp h)
  | succ k ih =>
    rw [ancestors.go] at h
    cases hp : p.parent? with
    | none =>
      rw [hp] at h
      exact .inl (List.mem_singleton.mp h)
    | some r =>
      rw [hp] at h
      rcases List.mem_cons.mp h with h | h
      · exact .inl h
      · rcases ih h with rfl | h
        · exact .inr ⟨p, hp⟩
        · exact .inr h

end Path

theorem FileTree.withoutEndSlash_of_parent? {p q : Path} (h : p.parent? = some q) :
    withoutEndSlash q = q := by
  rcases Path.getLast?_of_parent? h with hlast | rfl
  · exact withoutEndSlash_eq hlast
  · rfl

/-! ## One node put at a place -/

namespace Node

variable {node found new : Node} {place hole q : List Name} {entries : List (Name × Node)} {n : Name}
  {bytes old : List UInt8} {closed : Bool}

theorem kind_eq_of_bare {a b : Node} (h : a.bare = b.bare) : a.kind = b.kind := by
  cases a <;> cases b <;> simp_all [bare, kind]

theorem exists_of_map_bare {a b : Node} (h : (b.get? q).map bare = (a.get? q).map bare) {m : Node}
    (hm : a.get? q = some m) : ∃ m', b.get? q = some m' ∧ m'.bare = m.bare := by
  rwa [hm, Option.map_some, Option.map_eq_some_iff] at h

/-- What is put in the stead of a node that holds the same but in one place makes a difference there
alone. -/
theorem map_bare_get?_put (h : node.get? place = some found)
    (hnew : ∀ r, r ≠ hole → (new.get? r).map bare = (found.get? r).map bare) (hq : q ≠ place ++ hole) :
    ((node.put place new).get? q).map bare = (node.get? q).map bare := by
  induction place generalizing node q with
  | nil =>
    obtain rfl := Option.some.inj h
    rw [put]
    exact hnew q hq
  | cons n place ih =>
    obtain ⟨entries, closed, below, rfl, hl, hbelow⟩ := dir_of_get?_cons h
    rw [put_of_lookup hl]
    cases q with
    | nil => rfl
    | cons m q =>
      rw [get?_cons, get?_cons, lookup_putEntry]
      by_cases hm : m = n
      · subst hm
        rw [if_pos rfl, hl, Option.bind_some, Option.bind_some]
        exact ih hbelow fun e => hq (by rw [e, List.cons_append])
      · rw [if_neg hm]

theorem map_bare_get?_put_file (h : node.get? place = some (.file old closed)) (hq : q ≠ place) :
    ((node.put place (.file bytes closed)).get? q).map bare = (node.get? q).map bare := by
  have hnew : ∀ r, r ≠ [] →
      ((Node.file bytes closed).get? r).map bare = ((Node.file old closed).get? r).map bare := by
    rintro (_ | ⟨m, r⟩) hr
    · exact absurd rfl hr
    · rfl
  exact map_bare_get?_put h hnew (by rwa [List.append_nil])

theorem map_bare_get?_put_vacant (h : node.get? place = some (.dir entries closed))
    (hvacant : entries.lookup n = none) (hleaf : ∀ m more, new.get? (m :: more) = none)
    (hq : q ≠ place ++ [n]) :
    ((node.put (place ++ [n]) new).get? q).map bare = (node.get? q).map bare := by
  have hnew : ∀ r, r ≠ [n] → ((Node.dir (putEntry n new entries) closed).get? r).map bare =
      ((Node.dir entries closed).get? r).map bare := by
    rintro (_ | ⟨m, r⟩) hr
    · rfl
    · rw [get?_cons, get?_cons, lookup_putEntry]
      by_cases hm : m = n
      · subst hm
        obtain ⟨k, ks, rfl⟩ := List.exists_cons_of_ne_nil (l := r) (by rintro rfl; exact hr rfl)
        rw [if_pos rfl, hvacant, Option.bind_some, hleaf, Option.bind_none]
      · rw [if_neg hm]
  rw [put_append h, put_singleton]
  exact map_bare_get?_put h hnew hq

/-- A node that is put where something of its kind or nothing was makes a tree grow. -/
theorem grown_of_elsewhere {a b : Node}
    (helsewhere : ∀ q, q ≠ place → (b.get? q).map bare = (a.get? q).map bare)
    (hnew : b.get? place = some new) (hkind : ∀ m, a.get? place = some m → m.kind = new.kind) :
    a.Grown b := by
  intro q m hm
  by_cases hq : q = place
  · subst hq
    exact ⟨new, hnew, hkind m hm⟩
  · obtain ⟨m', hm', hbare⟩ := exists_of_map_bare (helsewhere q hq) hm
    exact ⟨m', hm', (kind_eq_of_bare hbare).symm⟩

end Node

namespace FileTree

variable {t t' t'' : FileTree} {aim : Aim} {p : Path} {place : List Name} {new : Node}
  {bytes : List UInt8} {paths paths' : List Path}

/-- One tree is another with a node put where a path leads. -/
structure Placed (t t' : FileTree) (p : Path) (place : List Name) (new : Node) : Prop where
  cwd : t'.cwd = t.cwd
  elsewhere : ∀ q, q ≠ place → (t'.root.get? q).map Node.bare = (t.root.get? q).map Node.bare
  found : t'.spot .target p = .ok (.taken place new)

theorem Placed.grown (h : Placed t t' p place new)
    (hkind : ∀ m, t.root.get? place = some m → m.kind = new.kind) : t.root.Grown t'.root :=
  Node.grown_of_elsewhere h.elsewhere (get?_of_spot h.found) hkind

theorem placed_of_vacant {dir : List Name} {n : Name} (h : t.spot aim p = .ok (.vacant dir n))
    (hleaf : ∀ m more, new.get? (m :: more) = none) (hlink : ∀ target, new ≠ .link target) :
    t.root.get? (dir ++ [n]) = none ∧ Placed t (t.put (dir ++ [n]) new) p (dir ++ [n]) new := by
  obtain ⟨entries, closed, hdir, hvacant⟩ := vacant_of_spot h
  have hnone : t.root.get? (dir ++ [n]) = none := by rw [Node.get?_concat hdir, hvacant]
  have hnew := Node.get?_put_concat hdir n new
  have helsewhere (q : List Name) (hq : q ≠ dir ++ [n]) :=
    Node.map_bare_get?_put_vacant hdir hvacant hleaf hq
  have hgrown := Node.grown_of_elsewhere helsewhere hnew (by simp [hnone])
  have hcwd : (t.put (dir ++ [n]) new).cwd = t.cwd := rfl
  exact ⟨hnone, hcwd, helsewhere, spot_target_of_grown hcwd hgrown h hnew hlink⟩

theorem placed_of_file {old : List UInt8} {closed : Bool}
    (h : t.spot aim p = .ok (.taken place (.file old closed))) :
    Placed t (t.put place (.file bytes closed)) p place (.file bytes closed) := by
  have hold := get?_of_spot h
  have hnew : (t.root.put place (.file bytes closed)).get? place = some (.file bytes closed) := by
    have hget := Node.get?_put hold (.file bytes closed) []
    rwa [List.append_nil] at hget
  have helsewhere (q : List Name) (hq : q ≠ place) := @Node.map_bare_get?_put_file _ _ _ bytes _ _ hold hq
  have hgrown := Node.grown_of_elsewhere helsewhere hnew (by simp [hold, Node.kind])
  have hcwd : (t.put place (.file bytes closed)).cwd = t.cwd := rfl
  exact ⟨hcwd, helsewhere, spot_target_of_grown hcwd hgrown h hnew (by simp)⟩

/-- A directory that is made stands where nothing was. -/
theorem placed_of_makeDir (h : t.makeDir p = .ok t') :
    ∃ place, t.root.get? place = none ∧ Placed t t' (withoutEndSlash p) place (.dir [] false) := by
  rw [makeDir] at h
  split at h
  · rename_i dir n hspot
    cases h
    exact ⟨dir ++ [n], placed_of_vacant hspot (fun _ _ => rfl) (by simp)⟩
  · cases h
  · cases h

/-- A file that is written stands where nothing or a file was. -/
theorem placed_of_write (h : t.write p bytes = .ok t') :
    ∃ place, (∀ m, t.root.get? place = some m → m.isFile = true) ∧
      Placed t t' p place (.file bytes (wasClosed (t.root.get? place))) := by
  rw [write] at h
  split at h
  · rename_i dir n hspot
    cases h
    have hleaf : ∀ m more, (Node.file bytes false).get? (m :: more) = none := fun _ _ => rfl
    obtain ⟨hnone, hplaced⟩ := placed_of_vacant hspot hleaf (by simp)
    exact ⟨dir ++ [n], by simp [hnone], by rw [hnone]; exact hplaced⟩
  · rename_i place old closed hspot
    cases h
    have hold := get?_of_spot hspot
    refine ⟨place, fun m hm => ?_, by rw [hold]; exact placed_of_file hspot⟩
    rw [hold, Option.some.injEq] at hm
    rw [← hm]
    rfl
  · cases h
  · cases h

/-! ## Directories -/

/-- A directory that a path leads to is still one when the tree has grown, and the path leads to it. -/
theorem isDir_of_grown (hcwd : t'.cwd = t.cwd) (hg : t.root.Grown t'.root) {q : List Name} {m m' : Node}
    (hdir : m.isDir = true) (hspot : t.spot .target p = .ok (.taken q m))
    (hm' : t'.root.get? q = some m') :
    m'.isDir = true ∧ t'.spot .target p = .ok (.taken q m') := by
  obtain ⟨entries, closed, rfl⟩ := Node.eq_dir_of_isDir hdir
  obtain ⟨entries', hspot'⟩ := spot_of_grown hcwd hg hspot
  rw [get?_of_spot hspot', Option.some.injEq] at hm'
  subst hm'
  exact ⟨rfl, hspot'⟩

/-- One tree is another with directories made, each of which one of the paths leads to. -/
structure DirsMade (t t' : FileTree) (paths : List Path) : Prop where
  cwd : t'.cwd = t.cwd
  kept : ∀ q m, t.root.get? q = some m → ∃ m', t'.root.get? q = some m' ∧ m'.bare = m.bare
  made : ∀ q m, t'.root.get? q = some m → t.root.get? q = none →
    m.isDir = true ∧ ∃ p ∈ paths, t'.spot .target p = .ok (.taken q m)

namespace DirsMade

theorem refl (t : FileTree) (paths : List Path) : DirsMade t t paths :=
  ⟨rfl, fun _ m hm => ⟨m, hm, rfl⟩, fun q m hm hnone => by rw [hm] at hnone; cases hnone⟩

theorem grown (h : DirsMade t t' paths) : t.root.Grown t'.root := by
  intro q m hm
  obtain ⟨m', hm', hbare⟩ := h.kept q m hm
  exact ⟨m', hm', (Node.kind_eq_of_bare hbare).symm⟩

/-- What is no directory is not touched when directories are made, and none of it is new. -/
theorem get?_iff (h : DirsMade t t' paths) {place : List Name} {m : Node}
    (hm : m.isDir = false) : t'.root.get? place = some m ↔ t.root.get? place = some m := by
  constructor
  · intro hplace
    cases hm₀ : t.root.get? place with
    | none =>
      have hdir := (h.made place m hplace hm₀).1
      rw [hm] at hdir
      cases hdir
    | some m₀ =>
      obtain ⟨m', hm', hbare⟩ := h.kept place m₀ hm₀
      obtain rfl := Option.some.inj (hplace.symm.trans hm')
      rw [Node.eq_of_bare_of_isDir hbare hm]
  · intro hplace
    obtain ⟨m', hm', hbare⟩ := h.kept place m hplace
    rw [hm', Node.eq_of_bare_of_isDir hbare.symm hm]

/-- Where no directory stands in the end, all is as it was. -/
theorem get?_eq_of_free (h : DirsMade t t' paths) {place : List Name}
    (hfree : ∀ m, t'.root.get? place = some m → m.isDir = false) :
    t'.root.get? place = t.root.get? place := by
  cases hm' : t'.root.get? place with
  | some m => exact ((h.get?_iff (hfree m hm')).mp hm').symm
  | none =>
    cases hm : t.root.get? place with
    | none => rfl
    | some m =>
      obtain ⟨m', hkept, -⟩ := h.kept place m hm
      rw [hm'] at hkept
      cases hkept

theorem mono (h : DirsMade t t' paths) (hsub : paths ⊆ paths') : DirsMade t t' paths' :=
  { h with made := fun q m hm hnone => (h.made q m hm hnone).imp_right fun ⟨p, hp, hspot⟩ =>
      ⟨p, hsub hp, hspot⟩ }

theorem trans (h : DirsMade t t' paths) (h' : DirsMade t' t'' paths) : DirsMade t t'' paths where
  cwd := h'.cwd.trans h.cwd
  kept q m hm := by
    obtain ⟨m', hm', hbare⟩ := h.kept q m hm
    obtain ⟨m'', hm'', hbare'⟩ := h'.kept q m' hm'
    exact ⟨m'', hm'', hbare'.trans hbare⟩
  made q m hm hnone := by
    cases hmid : t'.root.get? q with
    | none => exact h'.made q m hm hmid
    | some m' =>
      obtain ⟨hdir, p, hp, hspot⟩ := h.made q m' hmid hnone
      obtain ⟨hdir', hspot'⟩ := isDir_of_grown h'.cwd h'.grown hdir hspot hm
      exact ⟨hdir', p, hp, hspot'⟩

end DirsMade

theorem dirsMade_of_makeDir (hp : withoutEndSlash p = p) (h : t.makeDir p = .ok t') :
    DirsMade t t' [p] := by
  obtain ⟨place, hnone, hplaced⟩ := placed_of_makeDir h
  rw [hp] at hplaced
  refine ⟨hplaced.cwd, fun q m hm => ?_, fun q m hm hvacant => ?_⟩
  · have hq : q ≠ place := by
      rintro rfl
      rw [hm] at hnone
      cases hnone
    exact Node.exists_of_map_bare (hplaced.elsewhere q hq) hm
  · by_cases hq : q = place
    · subst hq
      rw [get?_of_spot hplaced.found, Option.some.injEq] at hm
      subst hm
      exact ⟨rfl, p, List.mem_singleton.mpr rfl, hplaced.found⟩
    · have hsame := hplaced.elsewhere q hq
      rw [hm, hvacant] at hsame
      cases hsame

/-- Making one of some directories after another makes just directories, even if it fails. -/
theorem dirsMade_makeDirs (t : FileTree) {paths : List Path}
    (hpaths : ∀ p ∈ paths, withoutEndSlash p = p) : DirsMade t (t.makeDirs paths).2 paths := by
  induction paths with
  | nil => exact .refl t []
  | cons p above ih =>
    obtain ⟨hp, habove⟩ := List.forall_mem_cons.mp hpaths
    have hfirst : [p] ⊆ p :: above := by simp
    have hrest : above ⊆ p :: above := List.subset_cons_self p above
    have hmade := (ih habove).mono hrest
    rw [makeDirs]
    by_cases hempty : p.symbols.isEmpty = true
    · rw [if_pos hempty]
      exact .refl t _
    · rw [if_neg hempty]
      cases hmake : t.makeDir p with
      | ok t' => exact (dirsMade_of_makeDir hp hmake).mono hfirst
      | error e =>
        cases e with
        | notFound =>
          -- those above are made first, and may be all that is made
          cases hdirs : t.makeDirs above with
          | mk r t' =>
            rw [hdirs] at hmade
            cases r with
            | error e => exact hmade
            | ok _ =>
              cases hagain : t'.makeDir p with
              | error e =>
                simp only [hagain]
                exact hmade
              | ok t'' =>
                simp only [hagain]
                exact hmade.trans ((dirsMade_of_makeDir hp hagain).mono hfirst)
        | _ => exact .refl t _

theorem dirsMade_makeDirAll (t : FileTree) (hp : withoutEndSlash p = p) :
    DirsMade t (t.makeDirAll p).2 p.ancestors := by
  refine t.dirsMade_makeDirs fun a ha => ?_
  rcases Path.mem_ancestors_go ha with rfl | ⟨b, hb⟩
  · exact hp
  · exact withoutEndSlash_of_parent? hb

end FileTree

end AndroidAudit
