import AndroidAudit.Audit.Log
import AndroidAudit.Pattern.Meaning
import AndroidAudit.Text.AsciiCase
import AndroidAudit.Text.Blank

/-!
# Which log entries are shown

A filter is a list of levels, each for the parts of the program whose names start in some way or for
all of them. Of those that apply to an entry the one with the longest name decides. A filter can be
written as a text: levels, and names with levels behind an equals sign, with commas between them, and
behind a slash a pattern that is to occur in an entry.
-/

namespace AndroidAudit.CommandLine

/-- A level for some parts of the program. Entries up to the rank are shown. -/
structure Directive where
  /-- How the names of the parts start. All parts if there is none. -/
  name : Option String
  /-- The greatest rank that is shown. -/
  rank : Nat
  deriving DecidableEq, Repr

/-- Which entries are shown. -/
structure LogFilter where
  directives : List Directive
  /-- What must occur in an entry. -/
  pattern : Option Pattern
  deriving DecidableEq, Repr

namespace LogFilter

/-- The rank of the level that a word names. Nothing at all is shown of rank zero. -/
def rank? (word : String) : Option Nat :=
  match String.ofList (Text.foldCase word.toList) with
  | "off" => some 0
  | "error" => some 1
  | "warn" => some 2
  | "info" => some 3
  | "debug" => some 4
  | "trace" => some 5
  | _ => none

/-- The filter of how often more logging is asked for. -/
def ofVerbosity (n : Nat) : LogFilter :=
  ⟨[⟨none, (if n = 0 then LogLevel.warn else if n = 1 then .info else .debug).rank⟩], none⟩

/-- With one level in place of another for the same name. -/
def put (d : Directive) : List Directive → List Directive
  | [] => [d]
  | e :: rest => if e.name = d.name then d :: rest else e :: put d rest

/-- A text without the blanks at its ends. -/
def trimmed (s : String) : String := String.ofList (Text.trim s.toList)

/-- What a part of a written filter says: a level, or what is wrong with it. -/
def readPart (part : String) : Except String Directive :=
  match part.splitOn "=" with
  | [name] =>
    match rank? name with
    | some r => .ok ⟨none, r⟩
    | none => .ok ⟨some name, LogLevel.trace.rank⟩
  | [name, level] =>
    let level := trimmed level
    if level.isEmpty then .ok ⟨some name, LogLevel.trace.rank⟩
    else match rank? level with
      | some r => .ok ⟨some name, r⟩
      | none => .error level
  | _ => .error part

/-- A filter with what a text says, and warnings about what it says in vain. -/
def amend (f : LogFilter) (text : String) : LogFilter × List String :=
  let read (mods : String) : List (Except String Directive) :=
    ((mods.splitOn ",").map trimmed |>.filter (!·.isEmpty)).map readPart
  let warning (what tail : String) : String :=
    "warning: invalid logging spec '" ++ what ++ "', ignoring it" ++ tail
  let use (mods : String) : LogFilter × List String :=
    (read mods).foldl (fun (f, warnings) part => match part with
      | .ok d => ({ f with directives := put d f.directives }, warnings)
      | .error what => (f, warnings ++ [warning what ""])) (f, [])
  match text.splitOn "/" with
  | [mods] => use mods
  | [mods, written] =>
    let (f, warnings) := use mods
    match Pattern.ofText written with
    | .ok p => ({ f with pattern := some p }, warnings)
    | .error r =>
      (f, warnings ++ ["warning: invalid regex filter - " ++ r.message written])
  | _ => (f, [warning text " (too many '/'s)"])

/-- How long the name of a level is. -/
def nameLength (d : Directive) : Nat := (d.name.map (·.utf8ByteSize)).getD 0

/-- Whether a level is for entries from a part of the program. -/
def applies (d : Directive) (target : String) : Bool :=
  match d.name with
  | none => true
  | some name => name.toList.isPrefixOf target.toList

/-- Whether an entry is shown. -/
def shows (f : LogFilter) (e : LogEntry) : Bool :=
  let sorted := f.directives.mergeSort fun a b => nameLength a ≤ nameLength b
  let allowed := match sorted.reverse.find? (applies · e.source.target) with
    | some d => e.level.rank ≤ d.rank
    | none => false
  allowed && f.pattern.all (·.occursIn e.text)

end LogFilter

end AndroidAudit.CommandLine
