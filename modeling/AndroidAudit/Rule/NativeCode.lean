import AndroidAudit.FileTree.Lookup
import AndroidAudit.Model.Issue
import AndroidAudit.Text.AsciiCase

/-!
# Native code outside the library directory

A file is native code if it starts with the bytes of a signature. It is misplaced if one of the
directories above it is a content root, whatever else is above it. Only the path below the project's
root counts.

In droidlint `checkFile?` is `scan_project_file`, and the functions it goes by are `prefix_len`
(`prefixLength`), `placement`, `matching_signature` (`signature?`), `classify_native_file` (`classify?`)
and `read_prefix` (`readPrefix?`).
-/

namespace AndroidAudit

/-- The bytes that files of a native format start with. -/
structure FileSignature where
  format : String
  magic : List UInt8
  deriving DecidableEq, Repr

/-- Where a file stands by the names of the directories above it. -/
inductive Placement where
  /-- Below a directory of resources or assets. -/
  | contentRoot
  /-- In a library directory, or one directory below. -/
  | libraryDir
  | elsewhere
  deriving DecidableEq, Repr

/-- What counts as native code and which directories decide on it. -/
structure NativeCodePolicy where
  signatures : List FileSignature
  /-- The names of directories below which native code is misplaced. -/
  contentRoots : List String
  /-- The names of directories where native code belongs. -/
  libraryDirs : List String
  deriving DecidableEq, Repr

namespace NativeCodePolicy

/-- The one format of the platform, and its usual directories. -/
def standard : NativeCodePolicy where
  signatures := [⟨"elf", [0x7F, 0x45, 0x4C, 0x46]⟩]
  contentRoots := ["res", "assets"]
  libraryDirs := ["lib", "libs", "jniLibs"]

/-- How many bytes of a file it takes to tell its format. -/
def prefixLength (p : NativeCodePolicy) : Nat :=
  p.signatures.foldl (fun n s => max n s.magic.length) 0

/-- The directories that a path leads through by name. -/
def directories (path : Path) : List String :=
  (path.components.filterMap fun c => match c with
    | .name n => some (Name.text n)
    | _ => none).dropLast

/-- Whether a directory has one of the given names, up to case. -/
def named (names : List String) (dir : String) : Bool := names.any (Text.eqFoldCase · dir)

/-- Where a file stands. -/
def placement (p : NativeCodePolicy) (path : Path) : Placement :=
  let dirs := directories path
  if dirs.any (named p.contentRoots) then .contentRoot
  else if (dirs.reverse.take 2).any (named p.libraryDirs) then .libraryDir
  else .elsewhere

/-- The first format whose bytes stand at the start of the given ones. A format without bytes is
never met. -/
def signature? (p : NativeCodePolicy) (bytes : List UInt8) : Option FileSignature :=
  p.signatures.find? fun s => !s.magic.isEmpty && s.magic.isPrefixOf bytes

/-- The words about a shared library. -/
def sharedLibraryMessage : String :=
  "Shared libraries should not be placed in the res or assets "
   ++ "directories. Please use the features of your development environment to place shared "
   ++ "libraries in the lib directory of the compiled APK."

/-- The words about other native code. -/
def executableMessage : String :=
  "Embedding non-shared library native executables into "
   ++ "applications should be avoided when possible, as there is an increased risk that the "
   ++ "executables could be tampered with after installation. Instead, native code should be "
   ++ "placed in a shared library, and the features of the development environment should be "
   ++ "used to place the shared library in the lib directory of the compiled APK."

/-- A path as findings show it: with slashes for backslashes. -/
def shownPath (path : Path) : String :=
  String.ofList (path.text.toList.map fun c => if c = '\\' then '/' else c)

/-- Whether a shown path names a shared library. -/
def isSharedLibrary (shown : String) : Bool :=
  ".so".toList.isSuffixOf (Text.foldCase shown.toList)

/-- What is reported of a file at a path that starts with the given bytes. -/
def classify? (p : NativeCodePolicy) (path : Path) (bytes : List UInt8) : Option Finding :=
  if p.placement path = .contentRoot ∧ (p.signature? bytes).isSome then
    let shown := shownPath path
    some {
      ruleId := Issue.nativeCodeLocation.id
      severity := Issue.nativeCodeLocation.defaultSeverity
      location := .file shown
      message := if isSharedLibrary shown then sharedLibraryMessage else executableMessage }
  else none

end NativeCodePolicy

/-- The first bytes of the file at a path, at most so many, if it can be opened and read. -/
def FileTree.readPrefix? (t : FileTree) (path : Path) (length : Nat) : Option (List UInt8) :=
  match t.node .target path with
  | .ok (.file bytes false) => some (bytes.take length)
  | _ => none

/-- A path below a root, or the path itself if it is not below it. -/
def Path.relativeTo (path root : Path) : Path := (path.stripBase? root).getD path

/-- What is reported of a file of the project at a root. A file outside the content roots is not
opened, and of another no more is read than tells its format. -/
def NativeCodePolicy.checkFile? (p : NativeCodePolicy) (t : FileTree) (root path : Path) :
    Option Finding :=
  let relative := path.relativeTo root
  if p.placement relative = .contentRoot then
    (t.readPrefix? path p.prefixLength).bind (p.classify? relative)
  else none

end AndroidAudit
