import Mathlib.Data.List.Basic
import AndroidAudit.FileTree.Lookup
import AndroidAudit.Rule.NativeCode

/-!
# Paths that go on by names

A name is *plain* if it says where to go: it is not idle, does not lead upwards and holds no slash. A
path followed by plain names (`Path.descend`) takes the steps of the path and then those names,
however the path is spelled:

* `begin_descend`: how such a path begins, and the segments that follow;
* `components_descend`: its steps;
* `route_descend`: the segments by which a host follows it;
* `relativeTo_descend`: what is left of it below the path it started from.
-/

namespace AndroidAudit

open Text (Symbol)

/-- A name that leads from a directory to an entry of it. -/
structure Name.Plain (n : Name) : Prop where
  ne_nil : n ≠ []
  ne_dot : n ≠ [Path.dot]
  ne_up : n ≠ [Path.dot, Path.dot]
  no_slash : Path.slash ∉ n

instance (n : Name) : Decidable n.Plain :=
  decidable_of_iff (n ≠ [] ∧ n ≠ [Path.dot] ∧ n ≠ [Path.dot, Path.dot] ∧ Path.slash ∉ n)
    ⟨fun ⟨h₁, h₂, h₃, h₄⟩ => ⟨h₁, h₂, h₃, h₄⟩, fun ⟨h₁, h₂, h₃, h₄⟩ => ⟨h₁, h₂, h₃, h₄⟩⟩

namespace Path

/-- A path followed by names. -/
def descend (p : Path) (place : List Name) : Path := place.foldl child p

@[simp] theorem descend_nil (p : Path) : p.descend [] = p := rfl

@[simp] theorem descend_cons (p : Path) (n : Name) (place : List Name) :
    p.descend (n :: place) = (p.child n).descend place := rfl

theorem descend_append (p : Path) (a b : List Name) :
    p.descend (a ++ b) = (p.descend a).descend b := List.foldl_append

/-! ## Segments -/

theorem split_ne_nil (s : List Symbol) : split s ≠ [] := by
  cases s with
  | nil => simp [split]
  | cons c s =>
    simp only [split]
    split
    · simp
    · split <;> simp

theorem split_append_slash (a b : List Symbol) : split (a ++ slash :: b) = split a ++ split b := by
  induction a with
  | nil => simp [split]
  | cons c a ih =>
    rw [List.cons_append, split, split]
    by_cases hc : c = slash
    · rw [if_pos hc, if_pos hc, ih, List.cons_append]
    · rw [if_neg hc, if_neg hc, ih]
      cases hs : split a with
      | nil => exact absurd hs (split_ne_nil a)
      | cons n ns => rfl

theorem split_of_not_mem {n : List Symbol} (h : slash ∉ n) : split n = [n] := by
  induction n with
  | nil => rfl
  | cons c n ih =>
    rw [List.mem_cons, not_or] at h
    rw [split, if_neg (Ne.symm h.1), ih h.2]

theorem split_joinNames {names : List Name} (hne : names ≠ []) (h : ∀ n ∈ names, slash ∉ n) :
    split (joinNames names) = names := by
  induction names with
  | nil => exact absurd rfl hne
  | cons n names ih =>
    have hn := h n List.mem_cons_self
    cases names with
    | nil => exact split_of_not_mem hn
    | cons m names =>
      rw [joinNames, split_append_slash, split_of_not_mem hn,
        ih (by simp) fun x hx => h x (List.mem_cons_of_mem _ hx), List.singleton_append]
      simp

/-- The segments of a path that names may follow: without the empty one behind a slash at the end. -/
def lead (p : Path) : List Name :=
  if p.symbols = [] || p.symbols.getLast? == some slash then (split p.symbols).dropLast
  else split p.symbols

theorem isAbsolute_of_plain {n : Name} (h : n.Plain) : isAbsolute ⟨n⟩ = false := by
  cases n with
  | nil => exact absurd rfl h.ne_nil
  | cons c n =>
    have hc : c ≠ slash := fun e => h.no_slash (e ▸ List.mem_cons_self)
    simp [isAbsolute, hc]

/-- How a path is spelled on: behind what it is spelled with, and with a slash between them unless
it needs none. -/
theorem symbols_child (p : Path) {n : Name} (h : n.Plain) :
    (p.child n).symbols =
      if p.symbols = [] || p.symbols.getLast? == some slash then p.symbols ++ n
      else p.symbols ++ slash :: n := by
  rw [child, join, isAbsolute_of_plain h]
  simp only [Bool.false_eq_true, if_false]
  split <;> rfl

theorem split_child (p : Path) {n : Name} (h : n.Plain) :
    split (p.child n).symbols = p.lead ++ [n] := by
  rw [symbols_child p h, lead]
  split
  · rename_i hend
    by_cases hnil : p.symbols = []
    · rw [hnil, List.nil_append, split_of_not_mem h.no_slash]
      rfl
    · have hlast : p.symbols.getLast? = some slash := by simpa [hnil] using hend
      obtain ⟨q, hq⟩ := List.getLast?_eq_some_iff.mp hlast
      rw [hq, List.append_assoc, List.singleton_append, split_append_slash, split_append_slash,
        split_of_not_mem h.no_slash]
      simp [split]
  · rw [split_append_slash, split_of_not_mem h.no_slash]

theorem symbols_child_eq_append (p : Path) {n : Name} (h : n.Plain) :
    ∃ between, (p.child n).symbols = p.symbols ++ between ++ n ∧ ∀ s ∈ between, s = slash := by
  rw [symbols_child p h]
  split
  · exact ⟨[], by simp, by simp⟩
  · exact ⟨[slash], by simp, by simp⟩

theorem symbols_child_ne_nil (p : Path) {n : Name} (h : n.Plain) : (p.child n).symbols ≠ [] := by
  obtain ⟨b, hb, _⟩ := symbols_child_eq_append p h
  rw [hb]
  simp [h.ne_nil]

theorem getLast?_symbols_child (p : Path) {n : Name} (h : n.Plain) :
    (p.child n).symbols.getLast? ≠ some slash := by
  obtain ⟨b, hb, _⟩ := symbols_child_eq_append p h
  rw [hb, List.getLast?_append_of_ne_nil _ h.ne_nil]
  exact fun hl => h.no_slash (List.mem_of_getLast? hl)

theorem lead_child (p : Path) {n : Name} (h : n.Plain) : (p.child n).lead = p.lead ++ [n] := by
  have hlast : ((p.child n).symbols.getLast? == some slash) = false := by
    rw [beq_eq_false_iff_ne]
    exact getLast?_symbols_child p h
  rw [lead, hlast, ← split_child p h]
  simp [symbols_child_ne_nil p h]

theorem isAbsolute_child (p : Path) {n : Name} (h : n.Plain) : (p.child n).isAbsolute = p.isAbsolute := by
  by_cases hp : p.symbols = []
  · have hc : (p.child n).symbols = n := by rw [symbols_child p h, hp]; simp
    have hn := isAbsolute_of_plain h
    rw [isAbsolute] at hn ⊢
    rw [hc, hn, isAbsolute, hp]
    rfl
  · obtain ⟨b, hb, _⟩ := symbols_child_eq_append p h
    rw [isAbsolute, isAbsolute, hb, List.append_assoc, List.head?_append_of_ne_nil _ hp]

/-! ## Paths and plain names -/

theorem lead_descend (p : Path) {place : List Name} (h : ∀ n ∈ place, n.Plain) :
    (p.descend place).lead = p.lead ++ place := by
  induction place generalizing p with
  | nil => simp
  | cons n place ih =>
    rw [descend_cons, ih _ fun x hx => h x (List.mem_cons_of_mem _ hx),
      lead_child p (h n List.mem_cons_self), List.append_assoc, List.singleton_append]

theorem isAbsolute_descend (p : Path) {place : List Name} (h : ∀ n ∈ place, n.Plain) :
    (p.descend place).isAbsolute = p.isAbsolute := by
  induction place generalizing p with
  | nil => rfl
  | cons n place ih =>
    rw [descend_cons, ih _ fun x hx => h x (List.mem_cons_of_mem _ hx),
      isAbsolute_child p (h n List.mem_cons_self)]

/-- A path with plain names behind it, seen from its last name. -/
theorem exists_descend_eq_child (p : Path) {place : List Name} (hne : place ≠ []) :
    ∃ n ∈ place, ∃ q : Path, p.descend place = q.child n := by
  obtain ⟨before, n, rfl⟩ := List.eq_nil_or_concat place |>.resolve_left hne
  refine ⟨n, by simp, p.descend before, ?_⟩
  simp [descend_append]

theorem split_descend (p : Path) {place : List Name} (hne : place ≠ [])
    (h : ∀ n ∈ place, n.Plain) : split (p.descend place).symbols = p.lead ++ place := by
  obtain ⟨n, hn, q, hq⟩ := exists_descend_eq_child p hne
  rw [← lead_descend p h, hq, split_child q (h n hn), lead_child q (h n hn)]

theorem symbols_descend_ne_nil (p : Path) {place : List Name} (hne : place ≠ [])
    (h : ∀ n ∈ place, n.Plain) : (p.descend place).symbols ≠ [] := by
  obtain ⟨n, hn, q, hq⟩ := exists_descend_eq_child p hne
  rw [hq]
  exact symbols_child_ne_nil q (h n hn)

theorem mem_symbols_descend {p : Path} {place : List Name} (h : ∀ n ∈ place, n.Plain) {s : Symbol}
    (hs : s ∈ (p.descend place).symbols) : s ∈ p.symbols ∨ s = slash ∨ ∃ n ∈ place, s ∈ n := by
  induction place generalizing p with
  | nil => exact .inl hs
  | cons n place ih =>
    obtain ⟨b, hb, hslash⟩ := symbols_child_eq_append p (h n List.mem_cons_self)
    rcases ih (fun x hx => h x (List.mem_cons_of_mem _ hx)) hs with hs | hs | ⟨m, hm, hs⟩
    · rw [hb, List.mem_append, List.mem_append] at hs
      rcases hs with (hs | hs) | hs
      · exact .inl hs
      · exact .inr (.inl (hslash s hs))
      · exact .inr (.inr ⟨n, List.mem_cons_self, hs⟩)
    · exact .inr (.inl hs)
    · exact .inr (.inr ⟨m, List.mem_cons_of_mem _ hm, hs⟩)

/-! ## Steps -/

theorem idle_of_plain {n : Name} (h : n.Plain) : idle n = false := by
  simp [idle, h.ne_nil, h.ne_dot]

theorem step?_of_plain {n : Name} (h : n.Plain) : step? n = some (.name n) := by
  simp [step?, idle_of_plain h, h.ne_up]

theorem filterMap_step?_of_plain {place : List Name} (h : ∀ n ∈ place, n.Plain) :
    place.filterMap step? = place.map .name := by
  rw [← List.filterMap_eq_map, List.filterMap_congr fun n hn => step?_of_plain (h n hn)]
  rfl

/-- How a path begins, by whether it is absolute and by its segments. -/
def beginOf (absolute : Bool) : List Name → Option Component × List Name
  | [] => (none, [])
  | n :: ns =>
    if absolute then (some .root, ns) else if n == [dot] then (some .here, ns) else (none, n :: ns)

theorem begin_eq (p : Path) : p.begin = beginOf p.isAbsolute (split p.symbols) := by
  rw [begin]
  cases split p.symbols <;> rfl

theorem beginOf_append {absolute : Bool} {segments : List Name} (hne : segments ≠ [])
    (more : List Name) : beginOf absolute (segments ++ more) =
      ((beginOf absolute segments).1, (beginOf absolute segments).2 ++ more) := by
  cases segments with
  | nil => exact absurd rfl hne
  | cons n ns =>
    simp only [List.cons_append, beginOf]
    split
    · rfl
    · split <;> rfl

theorem lead_eq_nil_iff (p : Path) : p.lead = [] ↔ p.symbols = [] := by
  constructor
  · intro h
    by_contra hne
    rw [lead] at h
    split at h
    · rename_i hend
      have hlast : p.symbols.getLast? = some slash := by simpa [hne] using hend
      obtain ⟨q, hq⟩ := List.getLast?_eq_some_iff.mp hlast
      rw [hq, split_append_slash] at h
      simp [split, split_ne_nil] at h
    · exact split_ne_nil _ h
  · intro h
    rw [lead, h]
    rfl

/-- The segments of a path are those that names may follow, or these and an empty one. -/
theorem split_eq_lead (p : Path) : split p.symbols = p.lead ∨ split p.symbols = p.lead ++ [[]] := by
  rw [lead]
  split
  · rename_i hend
    right
    by_cases hnil : p.symbols = []
    · rw [hnil]
      rfl
    · have hlast : p.symbols.getLast? = some slash := by simpa [hnil] using hend
      obtain ⟨q, hq⟩ := List.getLast?_eq_some_iff.mp hlast
      rw [hq, split_append_slash]
      simp [split]
  · exact .inl rfl

/-- A path with plain names behind it begins as the path does. What follows is what followed, less
an empty segment at the end, and then the names. -/
theorem begin_descend (p : Path) {place : List Name} (hne : place ≠ []) (h : ∀ n ∈ place, n.Plain) :
    ∃ rest, (p.descend place).begin = (p.begin.1, rest ++ place) ∧
      (p.begin.2 = rest ∨ p.begin.2 = rest ++ [[]]) := by
  rw [begin_eq, begin_eq, isAbsolute_descend p h, split_descend p hne h]
  by_cases hnil : p.symbols = []
  · obtain ⟨n, ns, rfl⟩ := List.exists_cons_of_ne_nil hne
    have hn := (h n List.mem_cons_self).ne_dot
    refine ⟨[], ?_, .inr ?_⟩ <;> simp [lead, hnil, isAbsolute, split, beginOf, hn]
  · have hlead : p.lead ≠ [] := fun e => hnil ((lead_eq_nil_iff p).mp e)
    refine ⟨(beginOf p.isAbsolute p.lead).2, ?_⟩
    rw [beginOf_append hlead]
    rcases split_eq_lead p with e | e
    · rw [e]
      exact ⟨rfl, .inl rfl⟩
    · rw [e, beginOf_append hlead]
      exact ⟨rfl, .inr rfl⟩

theorem filterMap_step?_append_empty (rest : List Name) :
    (rest ++ [[]]).filterMap step? = rest.filterMap step? := by
  simp [step?, idle]

/-- A path with plain names behind it takes the steps of the path and then those names. -/
theorem components_descend (p : Path) {place : List Name} (h : ∀ n ∈ place, n.Plain) :
    (p.descend place).components = p.components ++ place.map .name := by
  by_cases hne : place = []
  · simp [hne]
  · obtain ⟨rest, hbegin, hrest⟩ := begin_descend p hne h
    have hsteps : p.begin.2.filterMap step? = rest.filterMap step? := by
      rcases hrest with e | e
      · rw [e]
      · rw [e, filterMap_step?_append_empty]
    simp only [components, hbegin, hsteps, List.filterMap_append, filterMap_step?_of_plain h,
      List.append_assoc]

theorem components_ne_nil {p : Path} (h : p.symbols ≠ []) : p.components ≠ [] := by
  obtain ⟨c, cs, hp⟩ := List.exists_cons_of_ne_nil h
  rw [components, begin_eq, isAbsolute, hp]
  by_cases hc : c = slash
  · obtain ⟨n, ns, hs⟩ := List.exists_cons_of_ne_nil (split_ne_nil (c :: cs))
    rw [hs]
    simp [beginOf, hc]
  · -- the first segment is not empty, so it is a dot at the start or a step
    have hsplit : ∃ n ns, split (c :: cs) = (c :: n) :: ns := by
      rw [split, if_neg hc]
      cases split cs with
      | nil => exact ⟨[], [], rfl⟩
      | cons n ns => exact ⟨n, ns, rfl⟩
    obtain ⟨n, ns, hs⟩ := hsplit
    rw [hs]
    by_cases hd : c :: n = [dot]
    · simp [beginOf, hc, hd]
    · have hd' : (c :: n == [dot]) = false := beq_eq_false_iff_ne.mpr hd
      have habs : (some c == some slash) = false := by simpa using hc
      have hstep : ∃ step, step? (c :: n) = some step := by
        rw [step?, idle, hd']
        simp only [reduceCtorEq, beq_iff_eq, Bool.or_false, if_false]
        split <;> exact ⟨_, rfl⟩
      obtain ⟨step, hstep⟩ := hstep
      simp only [List.head?_cons, habs, beginOf, hd', Bool.false_eq_true, if_false,
        List.filterMap_cons_some hstep]
      exact List.append_ne_nil_of_right_ne_nil _ (List.cons_ne_nil _ _)

/-! ## Below a path -/

theorem dropSteps_cons_of_idle {c : Component} {cs : List Component} {n : Name} (h : idle n = true)
    (ns : List Name) : dropSteps (c :: cs) (n :: ns) = dropSteps (c :: cs) ns := by
  simp [dropSteps, trimStart, h]

/-- The steps of some segments lead past them, up to idle ones. -/
theorem dropSteps_filterMap (segments more : List Name) :
    ∃ idles, dropSteps (segments.filterMap step?) (segments ++ more) = some (idles ++ more) ∧
      ∀ n ∈ idles, idle n = true := by
  induction segments with
  | nil => exact ⟨[], rfl, by simp⟩
  | cons n ns ih =>
    obtain ⟨idles, hdrop, hidles⟩ := ih
    cases hn : idle n with
    | true =>
      have hstep : step? n = none := by simp [step?, hn]
      rw [List.filterMap_cons_none hstep, List.cons_append]
      cases hsteps : ns.filterMap step? with
      | nil =>
        rw [hsteps, dropSteps, Option.some.injEq, List.append_cancel_right_eq] at hdrop
        refine ⟨n :: idles, by rw [dropSteps, hdrop]; rfl, ?_⟩
        intro x hx
        rcases List.mem_cons.mp hx with rfl | hx
        · exact hn
        · exact hidles x hx
      | cons c cs =>
        rw [dropSteps_cons_of_idle hn, ← hsteps]
        exact ⟨idles, hdrop, hidles⟩
    | false =>
      have hstep : ∃ c, step? n = some c := by
        rw [step?, hn]
        simp only [Bool.false_eq_true, if_false]
        split
        · exact ⟨_, rfl⟩
        · exact ⟨_, rfl⟩
      obtain ⟨c, hstep⟩ := hstep
      refine ⟨idles, ?_, hidles⟩
      rw [List.filterMap_cons_some hstep, List.cons_append, ← hdrop]
      simp [dropSteps, trimStart, hn, hstep]

theorem trimStart_append_of_plain {idles place : List Name} (hidles : ∀ n ∈ idles, idle n = true)
    (h : ∀ n ∈ place, n.Plain) : trimStart (idles ++ place) = place := by
  rw [trimStart, List.dropWhile_append_of_pos hidles]
  cases place with
  | nil => rfl
  | cons n place => rw [List.dropWhile_cons_of_neg (by simp [idle_of_plain (h n List.mem_cons_self)])]

theorem trimEnd_of_plain {place : List Name} (h : ∀ n ∈ place, n.Plain) : trimEnd place = place := by
  have hrev : trimStart ([] ++ place.reverse) = place.reverse :=
    trimStart_append_of_plain (by simp) fun n hn => h n (List.mem_reverse.mp hn)
  rw [List.nil_append, trimStart] at hrev
  rw [trimEnd, hrev, List.reverse_reverse]

/-- Below the path it started from, a path is spelled by the names alone. -/
theorem relativeTo_descend {p : Path} (hp : p.symbols ≠ []) {place : List Name} (hne : place ≠ [])
    (h : ∀ n ∈ place, n.Plain) : (p.descend place).relativeTo p = ⟨joinNames place⟩ := by
  obtain ⟨rest, hbegin, hrest⟩ := begin_descend p hne h
  have hsteps : p.components = p.begin.1.toList ++ rest.filterMap step? := by
    rw [components]
    rcases hrest with e | e
    · simp [e]
    · simp only [e, filterMap_step?_append_empty]
  obtain ⟨idles, hdrop, hidles⟩ := dropSteps_filterMap rest place
  have hname : spell none (trimEnd (trimStart (idles ++ place))) = ⟨joinNames place⟩ := by
    rw [trimStart_append_of_plain hidles h, trimEnd_of_plain h]
    rfl
  rw [relativeTo, stripBase?, hbegin]
  cases hcomponents : p.components with
  | nil => exact absurd hcomponents (components_ne_nil hp)
  | cons c cs =>
    rw [hcomponents] at hsteps
    cases hfirst : p.begin.1 with
    | none =>
      rw [hfirst, Option.toList_none, List.nil_append] at hsteps
      simp only [hsteps, hdrop, Option.map_some, Option.getD_some, hname]
    | some f =>
      rw [hfirst, Option.toList_some, List.singleton_append, List.cons.injEq] at hsteps
      simp only [hsteps.1, hsteps.2, beq_self_eq_true, if_true, hdrop, Option.map_some,
        Option.getD_some, hname]

theorem isAbsolute_joinNames {n : Name} (hn : n.Plain) (ns : List Name) :
    isAbsolute ⟨joinNames (n :: ns)⟩ = false := by
  obtain ⟨c, cs, rfl⟩ := List.exists_cons_of_ne_nil hn.ne_nil
  have hc : c ≠ slash := fun e => hn.no_slash (e ▸ List.mem_cons_self)
  cases ns <;> simp [isAbsolute, joinNames, hc]

/-- The steps of a path that is spelled by plain names alone. -/
theorem components_joinNames {place : List Name} (hne : place ≠ []) (h : ∀ n ∈ place, n.Plain) :
    components ⟨joinNames place⟩ = place.map .name := by
  obtain ⟨n, ns, rfl⟩ := List.exists_cons_of_ne_nil hne
  have hsplit := split_joinNames hne fun m hm => (h m hm).no_slash
  rw [components, begin_eq, hsplit, isAbsolute_joinNames (h n List.mem_cons_self)]
  simp only [beginOf, Bool.false_eq_true, if_false, beq_eq_false_iff_ne.mpr (h n List.mem_cons_self).ne_dot,
    Option.toList_none, List.nil_append]
  exact filterMap_step?_of_plain h

end Path

/-- The directories that a path below another leads through. -/
theorem NativeCodePolicy.directories_joinNames {place : List Name} (hne : place ≠ [])
    (h : ∀ n ∈ place, n.Plain) :
    directories ⟨Path.joinNames place⟩ = place.dropLast.map Name.text := by
  rw [directories, Path.components_joinNames hne h, List.filterMap_map, List.map_dropLast]
  exact congrArg List.dropLast (congrFun List.filterMap_eq_map' place)

end AndroidAudit
