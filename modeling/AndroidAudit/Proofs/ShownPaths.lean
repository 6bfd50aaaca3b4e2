import AndroidAudit.Proofs.PathNames

/-!
# Paths behind other paths, and paths as findings show them

`components_join` says which steps a path takes that is put behind another. A path below a root is
shown with slashes for backslashes and replacement characters for what is no text (`Name.shown`), and
the shown text is read as a path again later. Read again behind the root, a path that is text is the
same path if and only if no name in it has a backslash (`same_join_shownPath`).
-/

namespace AndroidAudit

open Text (Symbol)

namespace Path

/-- The backslash, which is no division of a path. -/
def backslash : Symbol := .char '\\'

/-! ## Steps of a path behind another -/

theorem split_join (p : Path) {q : Path} (hq : q.isAbsolute = false) :
    split (p.join q).symbols = p.lead ++ split q.symbols := by
  rw [join, hq, if_neg Bool.false_ne_true, lead]
  split
  · rename_i hend
    by_cases hnil : p.symbols = []
    · simp [hnil, split]
    · have hlast : p.symbols.getLast? = some slash := by simpa [hnil] using hend
      obtain ⟨before, hp⟩ := List.getLast?_eq_some_iff.mp hlast
      rw [hp, List.append_assoc, List.singleton_append, split_append_slash, split_append_slash]
      simp [split]
  · exact split_append_slash _ _

theorem isAbsolute_join {p q : Path} (hp : p.symbols ≠ []) (hq : q.isAbsolute = false) :
    (p.join q).isAbsolute = p.isAbsolute := by
  rw [join, hq, if_neg Bool.false_ne_true]
  split <;> rw [isAbsolute, isAbsolute, List.head?_append_of_ne_nil _ hp]

/-- A relative path behind another takes the steps of the other and then its own, where a dot at its
start is idle. -/
theorem components_join {p q : Path} (hp : p.symbols ≠ []) (hq : q.isAbsolute = false) :
    (p.join q).components = p.components ++ (split q.symbols).filterMap step? := by
  have hlead : p.lead ≠ [] := fun e => hp ((lead_eq_nil_iff p).mp e)
  have hsteps : p.components = (beginOf p.isAbsolute p.lead).1.toList ++
      (beginOf p.isAbsolute p.lead).2.filterMap step? := by
    rw [components, begin_eq]
    rcases split_eq_lead p with e | e
    · rw [e]
    · rw [e, beginOf_append hlead]
      simp only [filterMap_step?_append_empty]
  rw [hsteps, components, begin_eq, isAbsolute_join hp hq, split_join p hq, beginOf_append hlead]
  simp only [List.filterMap_append, List.append_assoc]

/-- Names with slashes between them, behind a path, are the path followed by the names. -/
theorem join_joinNames (p : Path) {place : List Name} (hne : place ≠ []) (h : ∀ n ∈ place, n.Plain) :
    p.join ⟨joinNames place⟩ = p.descend place := by
  induction place generalizing p with
  | nil => exact absurd rfl hne
  | cons n ns ih =>
    obtain ⟨hn, hns⟩ := List.forall_mem_cons.mp h
    cases ns with
    | nil => rfl
    | cons m ns =>
      have hchild := symbols_child p hn
      have hend : ((p.child n).symbols = [] || (p.child n).symbols.getLast? == some slash) = false := by
        simp [symbols_child_ne_nil p hn, getLast?_symbols_child p hn]
      rw [descend_cons, ← ih (p.child n) (by simp) hns, join, join, isAbsolute_joinNames hn,
        isAbsolute_joinNames (hns m List.mem_cons_self), hend, hchild]
      simp only [Bool.false_eq_true, if_false, joinNames]
      split <;> simp

/-! ## Symbols of the steps -/

theorem mem_of_mem_split {symbols : List Symbol} {n : Name} {s : Symbol} (hn : n ∈ split symbols)
    (hs : s ∈ n) : s ∈ symbols := by
  induction symbols generalizing n with
  | nil =>
    rw [split, List.mem_singleton] at hn
    rwa [hn] at hs
  | cons c symbols ih =>
    rw [split] at hn
    split at hn
    · rcases List.mem_cons.mp hn with rfl | hn
      · cases hs
      · exact List.mem_cons_of_mem _ (ih hn hs)
    · cases hsplit : split symbols with
      | nil => exact absurd hsplit (split_ne_nil symbols)
      | cons m ms =>
        rw [hsplit] at hn ih
        rcases List.mem_cons.mp hn with rfl | hn
        · rcases List.mem_cons.mp hs with rfl | hs
          · exact List.mem_cons_self
          · exact List.mem_cons_of_mem _ (ih List.mem_cons_self hs)
        · exact List.mem_cons_of_mem _ (ih (List.mem_cons_of_mem _ hn) hs)

theorem mem_of_name_mem_steps {segments : List Name} {n : Name}
    (h : Component.name n ∈ segments.filterMap step?) : n ∈ segments := by
  obtain ⟨m, hm, hstep⟩ := List.mem_filterMap.mp h
  rw [step?] at hstep
  split_ifs at hstep
  · cases hstep
  · cases hstep
    exact hm

/-- A name that a path leads through is one of its segments. -/
theorem mem_split_of_mem_components {p : Path} {n : Name} (h : Component.name n ∈ p.components) :
    n ∈ split p.symbols := by
  rw [components, begin_eq] at h
  cases hsplit : split p.symbols with
  | nil => exact absurd hsplit (split_ne_nil p.symbols)
  | cons m ms =>
    rw [hsplit, beginOf] at h
    split_ifs at h
    · exact List.mem_cons_of_mem _ (mem_of_name_mem_steps (by simpa using h))
    · exact List.mem_cons_of_mem _ (mem_of_name_mem_steps (by simpa using h))
    · exact mem_of_name_mem_steps (by simpa using h)

/-! ## Shown paths -/

end Path

/-- A name with the replacement character for each stray part. -/
def Name.shown (n : Name) : Name := n.map fun s => .char s.shown

theorem Name.shown_ofString (s : String) : (Name.ofString s).shown = Name.ofString s := by
  simp [shown, ofString, Function.comp_def, Symbol.shown]

theorem Text.Symbol.eq_of_shown {s : Symbol} {c : Char} (h : s.shown = c) (hc : c ≠ '\ufffd') :
    s = .char c := by
  cases s with
  | char d => exact congrArg Symbol.char h
  | stray bytes => exact absurd h.symm hc

theorem Name.mem_of_mem_shown {n : Name} {c : Char} (h : Symbol.char c ∈ n.shown) (hc : c ≠ '\ufffd') :
    Symbol.char c ∈ n := by
  obtain ⟨s, hs, e⟩ := List.mem_map.mp h
  rwa [← Symbol.eq_of_shown (Symbol.char.inj e) hc]

/-- A name that is shown without a replacement character is shown as it is. -/
theorem Name.shown_eq_self {n : Name} (h : Symbol.char '\ufffd' ∉ n.shown) : n.shown = n := by
  have hsame : ∀ s ∈ n, Symbol.char s.shown = s := by
    intro s hs
    have hc : s.shown ≠ '\ufffd' := fun e => h (e ▸ List.mem_map_of_mem hs)
    exact (Symbol.eq_of_shown rfl hc).symm
  rw [shown, List.map_congr_left hsame, List.map_id']

theorem Name.eq_of_shown {n m : Name} (h : n.shown = m) (hm : Symbol.char '\ufffd' ∉ m) : n = m := by
  rw [← h, shown_eq_self (h ▸ hm)]

theorem Name.Plain.shown {n : Name} (h : n.Plain) : n.shown.Plain where
  ne_nil e := h.ne_nil (List.map_eq_nil_iff.mp e)
  ne_dot e := h.ne_dot (Name.eq_of_shown e (by decide))
  ne_up e := h.ne_up (Name.eq_of_shown e (by decide))
  no_slash hs := h.no_slash (Name.mem_of_mem_shown hs (by decide))

/-- A symbol as findings show it. -/
def Text.Symbol.displayed (s : Symbol) : Symbol :=
  .char (if s.shown = '\\' then '/' else s.shown)

namespace Path

theorem ofString_shownPath (p : Path) :
    Path.ofString (NativeCodePolicy.shownPath p) = ⟨p.symbols.map Symbol.displayed⟩ := by
  simp [ofString, Name.ofString, NativeCodePolicy.shownPath, text, Name.text, Function.comp_def,
    Symbol.displayed]

theorem backslash_not_mem_ofString_shownPath (p : Path) :
    backslash ∉ (Path.ofString (NativeCodePolicy.shownPath p)).symbols := by
  rw [ofString_shownPath, List.mem_map]
  rintro ⟨s, -, hs⟩
  have hc : (if s.shown = '\\' then '/' else s.shown) = '\\' := Symbol.char.inj hs
  split_ifs at hc with h
  · exact absurd hc (by decide)
  · exact h hc

theorem map_joinNames (g : Symbol → Symbol) (hg : g slash = slash) (place : List Name) :
    (joinNames place).map g = joinNames (place.map (List.map g)) := by
  induction place with
  | nil => rfl
  | cons n ns ih =>
    cases ns with
    | nil => rfl
    | cons m ns =>
      rw [joinNames, List.map_append, List.map_cons, hg, ih]
      · rfl
      · simp

theorem displayed_of_ne_backslash {s : Symbol} (h : s ≠ backslash) : s.displayed = .char s.shown := by
  rw [Symbol.displayed, if_neg fun e => h (Symbol.eq_of_shown e (by decide))]

/-- Names without a backslash, shown and read again, are the names as they are shown. -/
theorem ofString_shownPath_joinNames {place : List Name} (h : ∀ n ∈ place, backslash ∉ n) :
    Path.ofString (NativeCodePolicy.shownPath ⟨joinNames place⟩) =
      ⟨joinNames (place.map Name.shown)⟩ := by
  have hnames : place.map (List.map Symbol.displayed) = place.map Name.shown := by
    refine List.map_congr_left fun n hn => List.map_congr_left fun s hs => ?_
    exact displayed_of_ne_backslash fun e => h n hn (e ▸ hs)
  rw [ofString_shownPath, map_joinNames _ (by decide), hnames]

/-- Behind a root, a path that is shown and read again is the same if and only if no name in it has a
backslash. -/
theorem same_join_shownPath {root : Path} (hroot : root.symbols ≠ []) {place : List Name}
    (hne : place ≠ []) (h : ∀ n ∈ place, n.Plain) (htext : ∀ n ∈ place, n.shown = n) :
    (root.join (.ofString (NativeCodePolicy.shownPath ⟨joinNames place⟩))).same
      (root.join ⟨joinNames place⟩) = true ↔ ∀ n ∈ place, backslash ∉ n := by
  constructor
  · intro hsame n hn hbackslash
    rw [same, beq_iff_eq, join_joinNames root hne h, components_descend root h] at hsame
    have hmissing := backslash_not_mem_ofString_shownPath ⟨joinNames place⟩
    generalize Path.ofString (NativeCodePolicy.shownPath ⟨joinNames place⟩) = q at hsame hmissing
    cases hq : q.isAbsolute with
    | true =>
      -- the shown path stands by itself, and none of its names has a backslash
      have hjoin : root.join q = q := by rw [join, hq, if_pos rfl]
      have hname : Component.name n ∈ q.components := by
        rw [← hjoin, hsame]
        exact List.mem_append_right _ (List.mem_map_of_mem hn)
      exact hmissing (mem_of_mem_split (mem_split_of_mem_components hname) hbackslash)
    | false =>
      rw [components_join hroot hq, List.append_cancel_left_eq] at hsame
      have hname : Component.name n ∈ (split q.symbols).filterMap step? :=
        hsame ▸ List.mem_map_of_mem hn
      exact hmissing (mem_of_mem_split (mem_of_name_mem_steps hname) hbackslash)
  · intro hclean
    rw [ofString_shownPath_joinNames hclean, List.map_congr_left htext, List.map_id', same,
      beq_self_eq_true]

end Path

end AndroidAudit
