import Mathlib.Data.List.Forall2
import AndroidAudit.Proofs.LetterCase
import AndroidAudit.Proofs.ShownPaths

/-!
# Where a file stands

The directories that decide on a file are spelled in its path: they are the segments that are names
(`Path.names`), less the last one. A content root may be any of them, a library directory must be one of
the last two (`placement_cases`).

Behind another path the names of that path come first (`names_join`). A file with two directories of its
own therefore stands where it stood, unless one of the new directories is a content root
(`placement_nested`): a library directory further up decides on nothing.

Slashes and dots have no case, so paths that differ in the case of letters have the same names up to case
(`SameButCase.names`). Names are compared with their letters folded, and so is the end of a shown path, by
which a library is known. So nothing is told by the case of letters but how the path is shown
(`verdict_recased`).
-/

namespace AndroidAudit

open Text (Symbol)

/-! ## Names in a path -/

/-- The name that a step leads by. -/
def Component.name? : Component → Option Name
  | .name n => some n
  | _ => none

namespace Path

/-- Whether a segment is a name: it is not empty, nor one dot, nor two. -/
def isName (n : Name) : Bool := n ≠ [] ∧ n ≠ [dot] ∧ n ≠ [dot, dot]

/-- The names between the slashes of a path. -/
def names (p : Path) : List Name := (split p.symbols).filter isName

theorem name?_step? (n : Name) : (step? n).bind Component.name? = if isName n then some n else none := by
  rw [step?, idle, isName]
  by_cases hnil : n = []
  · simp [hnil]
  · by_cases hdot : n = [dot]
    · simp [hdot]
    · by_cases hup : n = [dot, dot]
      · simp [hup, Component.name?]
      · simp [hnil, hdot, hup, Component.name?]

theorem filterMap_name?_step? (segments : List Name) :
    (segments.filterMap step?).filterMap Component.name? = segments.filter isName := by
  rw [List.filterMap_filterMap, ← List.filterMap_eq_filter]
  refine List.filterMap_congr fun n _ => ?_
  rw [name?_step?, Option.guard]

theorem split_of_isAbsolute {p : Path} (h : p.isAbsolute = true) : ∃ ns, split p.symbols = [] :: ns := by
  rw [isAbsolute, beq_iff_eq, List.head?_eq_some_iff] at h
  obtain ⟨rest, hrest⟩ := h
  exact ⟨split rest, by rw [hrest, split, if_pos rfl]⟩

/-- The names that a path leads through are those that it is spelled with. -/
theorem filterMap_name?_components (p : Path) : p.components.filterMap Component.name? = p.names := by
  rw [components, begin_eq, names]
  cases habs : p.isAbsolute with
  | true =>
    obtain ⟨ns, hsplit⟩ := split_of_isAbsolute habs
    rw [hsplit]
    exact filterMap_name?_step? ns
  | false =>
    obtain ⟨n, ns, hsplit⟩ := List.exists_cons_of_ne_nil (split_ne_nil p.symbols)
    rw [hsplit, beginOf, if_neg Bool.false_ne_true]
    by_cases hdot : n = [dot]
    · subst hdot
      exact filterMap_name?_step? ns
    · rw [if_neg (by simpa using hdot)]
      exact filterMap_name?_step? (n :: ns)

theorem filter_isName_append_empty (segments : List Name) :
    (segments ++ [[]]).filter isName = segments.filter isName := by
  simp [isName]

/-- The names of a relative path behind another come behind those of the other. -/
theorem names_join (p : Path) {q : Path} (hq : q.isAbsolute = false) :
    (p.join q).names = p.names ++ q.names := by
  have hlead : p.names = p.lead.filter isName := by
    rw [names]
    rcases split_eq_lead p with e | e
    · rw [e]
    · rw [e, filter_isName_append_empty]
  rw [hlead, names, split_join p hq, List.filter_append, names]

/-- The names of the directories that a path to a file leads through. -/
def dirNames (p : Path) : List String := (p.names.map Name.text).dropLast

/-- Behind another path the directories of that path come first. -/
theorem dirNames_join (p : Path) {q : Path} (hq : q.isAbsolute = false) (hdirs : q.dirNames ≠ []) :
    (p.join q).dirNames = p.names.map Name.text ++ q.dirNames := by
  have hne : q.names.map Name.text ≠ [] := by
    intro h
    rw [dirNames, h] at hdirs
    exact hdirs rfl
  rw [dirNames, names_join p hq, List.map_append, List.dropLast_append_of_ne_nil hne, dirNames]

end Path

/-! ## Placements -/

namespace NativeCodePolicy

/-- A directory has one of the given names, up to the case of letters. -/
def NamedLike (names : List String) (dir : String) : Prop := ∃ n ∈ names, Text.SameButCase n dir

instance (names : List String) (dir : String) : Decidable (NamedLike names dir) :=
  inferInstanceAs (Decidable (∃ n ∈ names, _))

theorem named_iff {names : List String} {dir : String} : named names dir = true ↔ NamedLike names dir := by
  simp only [named, List.any_eq_true, Text.eqFoldCase_iff_sameButCase, NamedLike]

theorem directories_eq (path : Path) : directories path = path.dirNames := by
  rw [directories, Path.dirNames, ← Path.filterMap_name?_components, List.map_filterMap]
  congr 1
  refine List.filterMap_congr fun c _ => ?_
  cases c <;> rfl

variable (p : NativeCodePolicy)

/-- A content root may be any directory above the file and comes first, a library directory must be one of
the two next to it. -/
theorem placement_cases (path : Path) :
    (p.placement path = .contentRoot ∧ ∃ d ∈ path.dirNames, NamedLike p.contentRoots d) ∨
    (¬ ∃ d ∈ path.dirNames, NamedLike p.contentRoots d) ∧
      ((p.placement path = .libraryDir ∧
          ∃ d ∈ path.dirNames.drop (path.dirNames.length - 2), NamedLike p.libraryDirs d) ∨
        (p.placement path = .elsewhere ∧
          ¬ ∃ d ∈ path.dirNames.drop (path.dirNames.length - 2), NamedLike p.libraryDirs d)) := by
  have hroots : path.dirNames.any (named p.contentRoots) = true ↔
      ∃ d ∈ path.dirNames, NamedLike p.contentRoots d := by
    simp only [List.any_eq_true, named_iff]
  have hdirs : (path.dirNames.reverse.take 2).any (named p.libraryDirs) = true ↔
      ∃ d ∈ path.dirNames.drop (path.dirNames.length - 2), NamedLike p.libraryDirs d := by
    rw [List.take_reverse, List.any_reverse]
    simp only [List.any_eq_true, named_iff]
  rw [← hroots, ← hdirs, placement, directories_eq]
  by_cases hroot : path.dirNames.any (named p.contentRoots) = true
  · exact .inl ⟨if_pos hroot, hroot⟩
  · by_cases hdir : (path.dirNames.reverse.take 2).any (named p.libraryDirs) = true
    · exact .inr ⟨hroot, .inl ⟨by simp only [if_neg hroot, if_pos hdir], hdir⟩⟩
    · exact .inr ⟨hroot, .inr ⟨by simp only [if_neg hroot, if_neg hdir], hdir⟩⟩

theorem placement_eq_contentRoot_iff (path : Path) :
    p.placement path = .contentRoot ↔ ∃ d ∈ path.dirNames, NamedLike p.contentRoots d := by
  rcases p.placement_cases path with ⟨h, hroot⟩ | ⟨hroot, ⟨h, -⟩ | ⟨h, -⟩⟩ <;> simp [h, hroot]

/-- A content root further up is one above the file too. -/
theorem placement_join_of_contentRoot {parent path : Path} (hrel : path.isAbsolute = false)
    (hdirs : 2 ≤ path.dirNames.length) (hroot : ∃ n ∈ parent.names, NamedLike p.contentRoots n.text) :
    p.placement (parent.join path) = .contentRoot := by
  have hne : path.dirNames ≠ [] := List.ne_nil_of_length_pos (by omega)
  obtain ⟨n, hn, hlike⟩ := hroot
  rw [placement_eq_contentRoot_iff, parent.dirNames_join hrel hne]
  exact ⟨n.text, List.mem_append_left _ (List.mem_map_of_mem hn), hlike⟩

/-- Without a content root further up, the last two directories decide as they did. -/
theorem placement_join_of_no_contentRoot {parent path : Path} (hrel : path.isAbsolute = false)
    (hdirs : 2 ≤ path.dirNames.length) (hroot : ¬ ∃ n ∈ parent.names, NamedLike p.contentRoots n.text) :
    p.placement (parent.join path) = p.placement path := by
  have hne : path.dirNames ≠ [] := List.ne_nil_of_length_pos (by omega)
  have hnone : (parent.names.map Name.text).any (named p.contentRoots) = false := by
    rw [List.any_map, List.any_eq_false]
    exact fun n hn hnamed => hroot ⟨n, hn, named_iff.mp hnamed⟩
  have hlast : (parent.names.map Name.text ++ path.dirNames).reverse.take 2 =
      path.dirNames.reverse.take 2 := by
    rw [List.reverse_append]
    exact List.take_append_of_le_length (by rwa [List.length_reverse])
  simp only [placement, directories_eq, parent.dirNames_join hrel hne, List.any_append, hnone,
    Bool.false_or, hlast]

/-- Where a file stands is decided by the names of the directories above it, as its path spells them: it
stands in a content root if any of them is one, else in a library directory if one of the last two is
one, else neither. So a file with two directories of its own that is put below others stands in a
content root if one of the others is one, and else it stands where it stood. -/
theorem placement_nested :
    (∀ path : Path,
      (p.placement path = .contentRoot ↔ ∃ d ∈ path.dirNames, NamedLike p.contentRoots d) ∧
      (p.placement path = .libraryDir ↔ (¬ ∃ d ∈ path.dirNames, NamedLike p.contentRoots d) ∧
        ∃ d ∈ path.dirNames.drop (path.dirNames.length - 2), NamedLike p.libraryDirs d) ∧
      (p.placement path = .elsewhere ↔ (¬ ∃ d ∈ path.dirNames, NamedLike p.contentRoots d) ∧
        ¬ ∃ d ∈ path.dirNames.drop (path.dirNames.length - 2), NamedLike p.libraryDirs d)) ∧
    ∀ parent path : Path, path.isAbsolute = false → 2 ≤ path.dirNames.length →
      ((∃ n ∈ parent.names, NamedLike p.contentRoots n.text) →
        p.placement (parent.join path) = .contentRoot) ∧
      ((¬ ∃ n ∈ parent.names, NamedLike p.contentRoots n.text) →
        p.placement (parent.join path) = p.placement path) := by
  refine ⟨fun path => ?_, fun parent path hrel hdirs => ⟨?_, ?_⟩⟩
  · rcases p.placement_cases path with ⟨h, hroot⟩ | ⟨hroot, ⟨h, hdir⟩ | ⟨h, hdir⟩⟩
    · simp [h, hroot]
    · simp [h, hroot, hdir]
    · simp [h, hroot, hdir]
  · exact p.placement_join_of_contentRoot hrel hdirs
  · exact p.placement_join_of_no_contentRoot hrel hdirs

/-- A file in a library directory, however its path is spelled, and a file in other directories, which
two library directories above them do not change and a content root does. -/
theorem placement_nested_module :
    let p := NativeCodePolicy.standard
    let library := Path.ofString "app//./JNILIBS/arm/../x.so"
    let path := Path.ofString "./src//main/./x.so/"
    let parent := Path.ofString "/lib/libs/"
    let resources := Path.ofString "w/Assets/x"
    p.placement library = .libraryDir ∧
      path.isAbsolute = false ∧ 2 ≤ path.dirNames.length ∧ p.placement path = .elsewhere ∧
      p.placement (parent.join path) = .elsewhere ∧
      p.placement (resources.join path) = .contentRoot := by
  intro p library path parent resources
  obtain ⟨hplaced, hnested⟩ := p.placement_nested
  have hlibrary := (hplaced library).2.1.mpr (by decide +kernel)
  have hpath := (hplaced path).2.2.mpr (by decide +kernel)
  have hrel : path.isAbsolute = false := by decide +kernel
  have hdirs : 2 ≤ path.dirNames.length := by decide +kernel
  refine ⟨hlibrary, hrel, hdirs, hpath, ?_, ?_⟩
  · exact ((hnested parent path hrel hdirs).2 (by decide +kernel)).trans hpath
  · exact (hnested resources path hrel hdirs).1 (by decide +kernel)

/-- One directory of its own is not enough: the library directory is the next but one to the file. -/
example : standard.placement (.ofString "x/f.so") = .elsewhere ∧
    standard.placement ((Path.ofString "app/lib").join (.ofString "x/f.so")) = .libraryDir := by
  decide +kernel

end NativeCodePolicy

/-! ## Letters in either case -/

theorem any_eq_of_forall₂ {α β : Type} {R : α → β → Prop} {f : α → Bool} {g : β → Bool}
    (h : ∀ a b, R a b → f a = g b) {as : List α} {bs : List β} (hl : List.Forall₂ R as bs) :
    as.any f = bs.any g := by
  induction hl with
  | nil => rfl
  | cons hab _ ih => rw [List.any_cons, List.any_cons, h _ _ hab, ih]

namespace Path

/-- Paths are divided at the same places, whatever the case of their letters. -/
theorem split_recased {s t : List Symbol} (h : List.Forall₂ Symbol.Recased s t) :
    List.Forall₂ (List.Forall₂ Symbol.Recased) (split s) (split t) := by
  induction h with
  | nil => exact .cons .nil .nil
  | @cons c d s t hcd _ ih =>
    have hslash : c = slash ↔ d = slash := hcd.eq_char_iff (by decide)
    rw [split, split]
    by_cases hc : c = slash
    · rw [if_pos hc, if_pos (hslash.mp hc)]
      exact .cons .nil ih
    · rw [if_neg hc, if_neg (mt hslash.mpr hc)]
      generalize split s = ns at ih
      generalize split t = ms at ih
      cases ih with
      | nil => exact .cons (.cons hcd .nil) .nil
      | cons hn hns => exact .cons (.cons hcd hn) hns

theorem eq_chars_iff_of_recased {n m : Name} (h : List.Forall₂ Symbol.Recased n m) {cs : List Char}
    (hcs : cs.any Text.isLetter = false) : n = cs.map .char ↔ m = cs.map .char := by
  induction h generalizing cs with
  | nil => rfl
  | cons hst _ ih =>
    cases cs with
    | nil => simp
    | cons c cs =>
      obtain ⟨hc, hcs⟩ := Bool.or_eq_false_iff.mp hcs
      rw [List.map_cons, List.cons.injEq, List.cons.injEq, hst.eq_char_iff hc, ih hcs]

theorem isName_recased {n m : Name} (h : List.Forall₂ Symbol.Recased n m) : isName n = isName m := by
  have hdots (cs : List Char) (hcs : cs.any Text.isLetter = false) :
      n = cs.map .char ↔ m = cs.map .char := eq_chars_iff_of_recased h hcs
  have hnil : n = [] ↔ m = [] := hdots [] rfl
  have hdot : n = [dot] ↔ m = [dot] := hdots ['.'] (by decide)
  have hup : n = [dot, dot] ↔ m = [dot, dot] := hdots ['.', '.'] (by decide)
  simp only [isName, ne_eq, hnil, hdot, hup]

/-- The same segments are names in either case. -/
theorem SameButCase.names {p q : Path} (h : p.SameButCase q) :
    List.Forall₂ (List.Forall₂ Symbol.Recased) p.names q.names :=
  List.rel_filter (fun _ _ hn => Bool.eq_iff_iff.mp (isName_recased hn)) (split_recased h)

theorem sameButCase_text {n m : Name} (h : List.Forall₂ Symbol.Recased n m) :
    Text.SameButCase n.text m.text := by
  rw [Text.SameButCase, Name.text, Name.text, String.toList_ofList, String.toList_ofList,
    List.forall₂_map_left_iff, List.forall₂_map_right_iff]
  exact h.imp fun _ _ hs => hs.shown

theorem SameButCase.dirNames {p q : Path} (h : p.SameButCase q) :
    List.Forall₂ Text.SameButCase p.dirNames q.dirNames := by
  have htexts : List.Forall₂ Text.SameButCase (p.names.map Name.text) (q.names.map Name.text) := by
    rw [List.forall₂_map_left_iff, List.forall₂_map_right_iff]
    exact h.names.imp fun _ _ hn => sameButCase_text hn
  rw [Path.dirNames, Path.dirNames, List.dropLast_eq_take, List.dropLast_eq_take, htexts.length_eq]
  exact List.forall₂_take _ htexts

end Path

namespace NativeCodePolicy

/-- Policies that differ at most in the case of letters in the names of their directories. -/
structure SameButCase (p q : NativeCodePolicy) : Prop where
  signatures : p.signatures = q.signatures
  contentRoots : List.Forall₂ Text.SameButCase p.contentRoots q.contentRoots
  libraryDirs : List.Forall₂ Text.SameButCase p.libraryDirs q.libraryDirs

theorem eqFoldCase_recased {a a' b b' : String} (ha : Text.SameButCase a a') (hb : Text.SameButCase b b') :
    Text.eqFoldCase a b = Text.eqFoldCase a' b' := by
  rw [Text.eqFoldCase, Text.eqFoldCase, Text.foldCase_eq_iff.mpr ha, Text.foldCase_eq_iff.mpr hb]

theorem named_recased {names names' : List String} (h : List.Forall₂ Text.SameButCase names names')
    {dir dir' : String} (hdir : Text.SameButCase dir dir') : named names dir = named names' dir' :=
  any_eq_of_forall₂ (fun _ _ hn => eqFoldCase_recased hn hdir) h

theorem placement_recased {p q : NativeCodePolicy} (h : p.SameButCase q) {path path' : Path}
    (hpath : path.SameButCase path') : p.placement path = q.placement path' := by
  have hdirs := hpath.dirNames
  have hlast := List.forall₂_take 2 (List.forall₂_reverse_iff.mpr hdirs)
  have hroots : path.dirNames.any (named p.contentRoots) = path'.dirNames.any (named q.contentRoots) :=
    any_eq_of_forall₂ (fun _ _ hdir => named_recased h.contentRoots hdir) hdirs
  have hlibs : (path.dirNames.reverse.take 2).any (named p.libraryDirs) =
      (path'.dirNames.reverse.take 2).any (named q.libraryDirs) :=
    any_eq_of_forall₂ (fun _ _ hdir => named_recased h.libraryDirs hdir) hlast
  simp only [placement, directories_eq, hroots, hlibs]

theorem sameButCase_shownPath {path path' : Path} (h : path.SameButCase path') :
    Text.SameButCase (shownPath path) (shownPath path') := by
  have htext := Path.sameButCase_text h
  rw [Text.SameButCase, shownPath, shownPath, String.toList_ofList, String.toList_ofList,
    List.forall₂_map_left_iff, List.forall₂_map_right_iff]
  refine htext.imp fun c d hcd => ?_
  have hbackslash : c = '\\' ↔ d = '\\' := hcd.eq_iff (by decide)
  by_cases hc : c = '\\'
  · rw [if_pos hc, if_pos (hbackslash.mp hc)]
    exact .inl rfl
  · rw [if_neg hc, if_neg (mt hbackslash.mpr hc)]
    exact hcd

theorem isSharedLibrary_recased {shown shown' : String} (h : Text.SameButCase shown shown') :
    isSharedLibrary shown = isSharedLibrary shown' := by
  rw [isSharedLibrary, isSharedLibrary, Text.foldCase_eq_iff.mpr h]

theorem signature?_recased {p q : NativeCodePolicy} (h : p.SameButCase q) : p.signature? = q.signature? := by
  funext bytes
  rw [signature?, signature?, h.signatures]

/-- The case of letters A to Z has no say in where a file stands, in whether it is reported and in which
words. Let the letters of a path and those of the directories of a policy be capital or small, each for
itself: the file stands where it stood, and its finding is the same but for the location, which is the
path as it is spelled now. Letters may be changed in the bytes of a path too, be the bytes text or not. -/
theorem verdict_recased (p q : NativeCodePolicy) (hpolicy : p.SameButCase q) :
    (∀ path path' : Path, path.SameButCase path' →
      q.placement path' = p.placement path ∧
      Text.SameButCase (shownPath path) (shownPath path') ∧
      ∀ bytes, q.classify? path' bytes =
        (p.classify? path bytes).map fun f => { f with location := .file (shownPath path') }) ∧
    ∀ spelled spelled' : List UInt8, Text.RecasedBytes spelled spelled' →
      (Path.ofBytes spelled).SameButCase (Path.ofBytes spelled') := by
  refine ⟨fun path path' hpath => ?_, fun _ _ => Path.sameButCase_ofBytes⟩
  have hplacement := placement_recased hpolicy hpath
  have hshown := sameButCase_shownPath hpath
  refine ⟨hplacement.symm, hshown, fun bytes => ?_⟩
  simp only [classify?, hplacement, signature?_recased hpolicy, isSharedLibrary_recased hshown]
  by_cases h : q.placement path' = .contentRoot ∧ (q.signature? bytes).isSome = true
  · rw [if_pos h, if_pos h, Option.map_some]
  · rw [if_neg h, if_neg h, Option.map_none]

/-- A library in a content root, by a name that is no text: some letters of its path and of the policy
change their case, and the finding changes with them in its location alone. -/
theorem verdict_recased_library :
    let p := NativeCodePolicy.standard
    let q : NativeCodePolicy :=
      { p with contentRoots := ["rEs", "ASSETS"], libraryDirs := ["LIB", "libs", "jnilibs"] }
    let native : List UInt8 := [0x7F, 0x45, 0x4C, 0x46]
    let spelled := Text.encode "RES/" ++ 0xFF :: Text.encode "\\Lib.SO"
    let spelled' := Text.encode "res/" ++ 0xFF :: Text.encode "\\lib.So"
    let f : Finding := ⟨"UnsafeNativeCodeLocation", .warning, .file "RES/\ufffd/Lib.SO",
      sharedLibraryMessage, []⟩
    p.SameButCase q ∧ Text.RecasedBytes spelled spelled' ∧
      p.classify? (.ofBytes spelled) native = some f ∧
      q.classify? (.ofBytes spelled') native = some { f with location := .file "res/\ufffd/lib.So" } := by
  intro p q native spelled spelled' f
  have hpolicy : p.SameButCase q := ⟨rfl, by decide +kernel, by decide +kernel⟩
  obtain ⟨hverdict, hbytes⟩ := verdict_recased p q hpolicy
  have hspelled : Text.RecasedBytes spelled spelled' := by
    unfold Text.RecasedBytes
    decide +kernel
  have hf : p.classify? (.ofBytes spelled) native = some f := by decide +kernel
  have hshown : shownPath (.ofBytes spelled') = "res/\ufffd/lib.So" := by decide +kernel
  obtain ⟨-, -, hfinding⟩ := hverdict _ _ (hbytes spelled spelled' hspelled)
  exact ⟨hpolicy, hspelled, hf, by rw [hfinding native, hf, Option.map_some, hshown]⟩

end NativeCodePolicy

end AndroidAudit
