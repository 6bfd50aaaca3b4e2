import AndroidAudit.Command.Project
import AndroidAudit.Command.Scan
import AndroidAudit.CommandLine.Arguments
import AndroidAudit.CommandLine.LogFilter

/-!
# A command line from its words to its outcome

In droidlint this is `main`.
-/

namespace AndroidAudit.CommandLine

/-- What a command line leads to, besides changes to files. -/
structure Outcome where
  /-- Zero if all went well, one if the command failed, and two if the words made no sense. -/
  code : Nat
  stdout : String
  stderr : String
  deriving DecidableEq, Repr

/-- A text whose lines are further in, the first as its head says. -/
def indentLines (head tail text : String) : String :=
  head ++ ("\n" ++ tail).intercalate (text.splitOn "\n")

/-- A failure over several lines: causes are numbered if there are more than one. -/
def failureText (f : Failure) : String :=
  let causes := match f.causes with
    | [] => ""
    | [cause] => "\n\nCaused by:\n" ++ indentLines "    " "    " cause
    | causes => "\n\nCaused by:" ++ String.join (causes.zipIdx.map fun (cause, i) =>
        "\n" ++ indentLines ("    " ++ toString i ++ ": ") "       " cause)
  "Error: " ++ f.text ++ causes ++ "\n"

/-- The command that a request asks for. -/
def perform (command : CommandName) (g : Given) : Command Unit :=
  let root := (g.values.lookup .root).getD "."
  match command with
  | .initProject => Command.initProject root (g.values.lookup .name)
  | .projectInfo => Command.projectInfo root g.json
  | .listIssues => Command.listIssues g.json
  | .scan => do
    let _ ← Command.scan root (g.values.lookup .units) g.json (g.values.lookup .output)

/-- How the program or a command is called. -/
def helpText (command : Option CommandName) : String :=
  match command with
  | none => about ++ "\n\nUsage: droidlint [OPTIONS] <COMMAND>\n"
  | some c => "Usage: droidlint " ++ c.word ++ " [OPTIONS]\n"

/-- The version of the program. -/
def version : String := "0.1.0"

/-- Runs a command line on files. The log is shown as the options say, or as a text on filters does. -/
def run (words : List String) (filter : Option String) (tree : FileTree) (time : String) :
    Outcome × FileTree :=
  match Request.ofWords false 0 words with
  | .error e => (⟨2, "", e.message⟩, tree)
  | .ok .version => (⟨0, "droidlint " ++ version ++ "\n", ""⟩, tree)
  | .ok (.help command) => (⟨0, helpText command, ""⟩, tree)
  | .ok (.run verbose command given) =>
    let verbosity := if given.verbose = 0 then verbose else given.verbose
    let base := LogFilter.ofVerbosity verbosity
    let (shown, warnings) := (filter.map base.amend).getD (base, [])
    let (result, host) := (perform command given).run ⟨tree, time, "", []⟩
    let entries := warnings ++ (host.log.filter shown.shows).map LogEntry.line
    let log := String.join (entries.map (· ++ "\n"))
    match result with
    | .ok () => (⟨0, host.output, log⟩, host.tree)
    | .error f => (⟨1, host.output, log ++ failureText f⟩, host.tree)

end AndroidAudit.CommandLine
