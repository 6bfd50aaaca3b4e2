import Mathlib.Data.List.Find
import Mathlib.Tactic.SplitIfs
import AndroidAudit.Proofs.TreeLookup
import AndroidAudit.Rule.NativeCode

/-!
# The first bytes of a file tell as much as all of it

A file is judged by the signature that it starts with, and the bytes that are read are enough for the
longest one (`length_le_prefixLength`). `checkFile?_whole` says that nothing is lost by reading no more,
nor by leaving files outside the content roots unopened. A file that cannot be read is not judged at
all (`checkFile?_unread`).
-/

namespace AndroidAudit

namespace NativeCodePolicy

theorem length_le_prefixLength {p : NativeCodePolicy} {s : FileSignature} (h : s ∈ p.signatures) :
    s.magic.length ≤ p.prefixLength := by
  have hmax (l : List FileSignature) (n : Nat) (hmem : s ∈ l ∨ s.magic.length ≤ n) :
      s.magic.length ≤ l.foldl (fun n s => max n s.magic.length) n := by
    induction l generalizing n with
    | nil => simpa using hmem
    | cons x l ih =>
      refine ih _ ?_
      rcases hmem with hmem | hmem
      · rcases List.mem_cons.mp hmem with rfl | hmem
        · exact .inr (Nat.le_max_right _ _)
        · exact .inl hmem
      · exact .inr (Nat.le_trans hmem (Nat.le_max_left _ _))
  exact hmax p.signatures 0 (.inl h)

variable (p : NativeCodePolicy)

/-- The bytes that are read show the same signature as the whole file does. -/
theorem signature?_take (bytes : List UInt8) :
    p.signature? (bytes.take p.prefixLength) = p.signature? bytes := by
  have hstarts : ∀ s ∈ p.signatures,
      s.magic.isPrefixOf (bytes.take p.prefixLength) = s.magic.isPrefixOf bytes := by
    intro s hs
    rw [Bool.eq_iff_iff, List.isPrefixOf_iff_prefix, List.isPrefixOf_iff_prefix, List.prefix_take_iff,
      and_iff_left (length_le_prefixLength hs)]
  rw [signature?, signature?]
  exact List.find?_congr fun s hs => by rw [hstarts s hs]

theorem classify?_take (path : Path) (bytes : List UInt8) :
    p.classify? path (bytes.take p.prefixLength) = p.classify? path bytes := by
  rw [classify?, classify?, signature?_take]

theorem classify?_of_placement {path : Path} (h : p.placement path ≠ .contentRoot)
    (bytes : List UInt8) : p.classify? path bytes = none :=
  if_neg fun hc => h hc.1

end NativeCodePolicy

theorem FileTree.read_eq_ok_iff {t : FileTree} {path : Path} {bytes : List UInt8} :
    t.read path = .ok bytes ↔ t.node .target path = .ok (.file bytes false) := by
  rw [read]
  rcases t.node .target path with e | ⟨_, _ | _⟩ | _ | ⟨_, _ | _⟩ <;> simp

theorem FileTree.readPrefix?_eq (t : FileTree) (path : Path) (length : Nat) :
    t.readPrefix? path length = (t.read path).toOption.map (·.take length) := by
  rw [readPrefix?, read]
  rcases t.node .target path with e | ⟨_, _ | _⟩ | _ | ⟨_, _ | _⟩ <;> rfl

theorem NativeCodePolicy.checkFile?_eq (p : NativeCodePolicy) (t : FileTree) (root path : Path) :
    p.checkFile? t root path = (t.read path).toOption.bind (p.classify? (path.relativeTo root)) := by
  rw [checkFile?]
  split_ifs with hplacement
  · rw [FileTree.readPrefix?_eq, Option.bind_map]
    exact congrArg _ (funext (p.classify?_take _))
  · -- unopened, as no content is reported there
    cases (t.read path).toOption with
    | none => rfl
    | some bytes => exact (p.classify?_of_placement hplacement bytes).symm

/-- The check of a file gives what its whole content gives at its path below the root. Where the path
does not lead to a file that can be read it gives nothing. -/
theorem NativeCodePolicy.checkFile?_whole (p : NativeCodePolicy) (t : FileTree) (root path : Path) :
    p.checkFile? t root path = (t.read path).toOption.bind (p.classify? (path.relativeTo root)) ∧
    ∀ bytes, t.read path = .ok bytes ↔ t.node .target path = .ok (.file bytes false) :=
  ⟨p.checkFile?_eq t root path, fun _ => FileTree.read_eq_ok_iff⟩

/-- One native file below `res`. -/
def resources (name : String) (closed : Bool) : List (Name × Node) :=
  [(Name.ofString "res", .dir [(Name.ofString name, .file [0x7F, 0x45, 0x4C, 0x46] closed)] false)]

/-- Native code in a content root of which nothing is reported: the path leads to it and the host refuses
to read it, or the host could read it and does not take a path of that length. -/
theorem NativeCodePolicy.checkFile?_unread :
    let p := NativeCodePolicy.standard
    let place := [Name.ofString "res", Name.ofString "x"]
    let bytes := [0x7F, 0x45, 0x4C, 0x46]
    let t (closed : Bool) : FileTree := ⟨.dir (resources "x" closed) false, []⟩
    let root : Path := ⟨dots 0⟩
    let long : Path := ⟨dots 2045⟩
    ((t true).node .target (root.descend place) = .ok (.file bytes true) ∧
      (p.classify? ((root.descend place).relativeTo root) bytes).isSome = true ∧
      p.checkFile? (t true) root (root.descend place) = none) ∧
    (t false).node .target long = .ok (.dir (resources "x" false) false) ∧
      (Node.dir (resources "x" false) false).get? place = some (.file bytes false) ∧
      (p.classify? ((long.descend place).relativeTo long) bytes).isSome = true ∧
      p.checkFile? (t false) long (long.descend place) = none := by
  intro p place bytes t root long
  have hplace : ∀ n ∈ place, n.Allowed := by decide
  have hget (closed : Bool) :
      (Node.dir (resources "x" closed) false).get? place = some (.file bytes closed) := by
    simp [resources, place, bytes, Node.get?, Node.child?]
  have hrelative (n : Nat) : (Path.descend ⟨dots n⟩ place).relativeTo ⟨dots n⟩ =
      ⟨Path.joinNames place⟩ :=
    Path.relativeTo_descend (dots_ne_nil n) (by simp [place]) fun m hm => (hplace m hm).toPlain
  have hnative : (p.classify? ⟨Path.joinNames place⟩ bytes).isSome = true := by decide
  have hclosed : (t true).node .target (root.descend place) = .ok (.file bytes true) :=
    FileTree.node_descend (FileTree.node_dots rfl (by decide)) (hget true) (by simp) hplace (by decide)
  have hcount (n : Nat) : FileTree.byteCount (Path.descend ⟨dots n⟩ place).symbols = 2 * n + 7 := by
    rw [Path.descend_cons, Path.descend_cons, Path.descend_nil,
      FileTree.byteCount_child_of_getLast? (by decide)
        (Path.symbols_child_ne_nil _ (n := Name.ofString "res") (by decide))
        (Path.getLast?_symbols_child _ (by decide)),
      byteCount_dots_child (by decide)]
    rfl
  have hlong : maxPathBytes < FileTree.byteCount (long.descend place).symbols := by
    rw [hcount]
    decide
  refine ⟨⟨hclosed, by rw [hrelative 0, hnative], ?_⟩, FileTree.node_dots rfl (by decide), hget false,
    by rw [hrelative 2045, hnative], ?_⟩
  · rw [checkFile?_eq, FileTree.read, hclosed]
    rfl
  · obtain ⟨e, he⟩ := @FileTree.node_of_tooLong (t false) .target _ hlong
    rw [checkFile?_eq, FileTree.read, he]
    rfl

end AndroidAudit
