import AndroidAudit.Text.Terminal

/-!
# The words of a command line

A command line has options, then the name of a command, then the command's own options. An option
that takes a value takes the next word, unless that looks like an option, or what follows an equals
sign. Whether an option was given its value, and given before, is looked at when the next option that
is known comes, or at the end.
-/

namespace AndroidAudit.CommandLine

/-- The commands. -/
inductive CommandName where
  | initProject
  | projectInfo
  | listIssues
  | scan
  deriving DecidableEq, Repr

/-- The options that take a value. -/
inductive Setting where
  | root
  | name
  | units
  | output
  deriving DecidableEq, Repr

/-- The options without a value. -/
inductive Switch where
  | json
  /-- Logs more, and still more if given again. -/
  | verbose
  deriving DecidableEq, Repr

/-- The word for a command. -/
def CommandName.word : CommandName → String
  | .initProject => "init-project"
  | .projectInfo => "project-info"
  | .listIssues => "list-issues"
  | .scan => "scan"

/-- All commands. -/
def CommandName.all : List CommandName := [.initProject, .projectInfo, .listIssues, .scan]

/-- The command of a word. -/
def CommandName.ofWord? (w : String) : Option CommandName :=
  CommandName.all.find? (·.word == w)

example (c : CommandName) : CommandName.ofWord? c.word = some c := by cases c <;> decide

/-- The settings of a command. -/
def CommandName.settings : CommandName → List Setting
  | .initProject => [.root, .name]
  | .projectInfo => [.root]
  | .listIssues => []
  | .scan => [.root, .units, .output]

/-- Whether a command can print JSON. -/
def CommandName.hasJson : CommandName → Bool
  | .initProject => false
  | _ => true

/-- The word for a setting. -/
def Setting.word : Setting → String
  | .root => "root"
  | .name => "name"
  | .units => "units"
  | .output => "output"

/-- A setting as it is shown, with a name for its value. -/
def Setting.shown : Setting → String
  | .root => "--root <ROOT>"
  | .name => "--name <NAME>"
  | .units => "--units <UNITS>"
  | .output => "--output <OUTPUT>"

/-- A switch as it is shown. -/
def Switch.shown : Switch → String
  | .json => "--json"
  | .verbose => "--verbose..."

/-- Why a command line is refused. -/
inductive UsageError where
  | noArguments
  | missingCommand
  | unknownCommand (word : String)
  | unexpectedArgument (word : String)
  | missingValue (s : Setting)
  | unexpectedValue (value shown : String)
  | repeated (shown : String)
  deriving DecidableEq, Repr

/-- The word by which help is asked for. -/
def helpWord : String := "help"

/-- What the program is for. -/
def about : String :=
  "Flags permissive trust managers, dynamic code loading and misplaced native code"

/-- A word in a colour and what sets the colour back. -/
def coloured (word : String) : String := "\x1b[33m" ++ word ++ "\x1b[0m"

/-- The error in words, as a terminal shows it. The words that were given are in a colour. -/
def UsageError.text : UsageError → String
  | .noArguments => about
  | .missingCommand => "error: 'droidlint' requires a subcommand but one was not provided"
  | .unknownCommand w => "error: unrecognized subcommand '" ++ coloured w ++ "'"
  | .unexpectedArgument w => "error: unexpected argument '" ++ coloured w ++ "' found"
  | .missingValue s =>
    "error: a value is required for '" ++ s.shown ++ "' but none was supplied"
  | .unexpectedValue v shown =>
    "error: unexpected value '" ++ coloured v ++ "' for '" ++ shown
      ++ "' found; no more were expected"
  | .repeated shown =>
    "error: the argument '" ++ shown ++ "' cannot be used multiple times"

/-- The first line of a text. -/
def firstLine (cs : List Char) : List Char :=
  let line := cs.takeWhile (· ≠ '\n')
  if line.length < cs.length ∧ line.getLast? = some '\r' then line.dropLast else line

/-- The error in one line, without what steers a terminal. -/
def UsageError.message (e : UsageError) : String :=
  String.ofList (firstLine (Text.plainText e.text).toList)

/-! ## Words -/

/-- What a word of a command line looks like. -/
inductive Word where
  /-- Two hyphens: no options follow. -/
  | divider
  | long (name : String) (value : Option String)
  | short (letters : List Char)
  | plain
  deriving DecidableEq, Repr

/-- What a word looks like. -/
def Word.ofString (s : String) : Word :=
  match s.toList with
  | ['-', '-'] => .divider
  | '-' :: '-' :: rest =>
    let name := rest.takeWhile (· != '=')
    .long (String.ofList name) (match rest.drop name.length with
      | _ :: value => some (String.ofList value)
      | [] => none)
  | '-' :: c :: rest => .short (c :: rest)
  | _ => .plain

/-! ## The options of a command -/

/-- Why the words behind a command's name do not make it run. -/
inductive Halt where
  | refused (e : UsageError)
  | help
  deriving DecidableEq, Repr

/-- The options given so far. -/
structure Given where
  values : List (Setting × String)
  json : Bool
  verbose : Nat
  /-- The last setting, if it has not been looked at, and its value if that has come. -/
  pending : Option (Setting × Option String)
  deriving DecidableEq, Repr

namespace Given

/-- Nothing. -/
def none : Given := ⟨[], false, 0, .none⟩

/-- With the value of a setting, which may have only one. -/
def put (g : Given) (s : Setting) (v : String) : Except Halt Given :=
  if (g.values.lookup s).isSome then .error (.refused (.repeated s.shown))
  else .ok { g with values := g.values ++ [(s, v)] }

/-- With the last setting looked at. -/
def settle (g : Given) : Except Halt Given :=
  match g.pending with
  | .none => .ok g
  | some (s, .none) => .error (.refused (.missingValue s))
  | some (s, some v) => { g with pending := .none }.put s v

/-- With a setting. -/
def addSetting (g : Given) (s : Setting) (value : Option String) : Except Halt Given := do
  let g ← g.settle
  match value with
  | some v => g.put s v
  | .none => return { g with pending := some (s, .none) }

/-- With a switch. -/
def addSwitch (g : Given) (s : Switch) : Except Halt Given := do
  let g ← g.settle
  match s with
  | .verbose => return { g with verbose := g.verbose + 1 }
  | .json => if g.json then .error (.refused (.repeated s.shown)) else return { g with json := true }

/-- Asks for help, once the last setting is looked at. -/
def askHelp (g : Given) : Except Halt Given := do
  let _ ← g.settle
  .error .help

/-- With options by their letters. -/
def addLetters (g : Given) : List Char → Except Halt Given
  | [] => .ok g
  | c :: rest =>
    if c = 'v' then do (← g.addSwitch .verbose).addLetters rest
    else if c = 'h' then g.askHelp
    else .error (.refused (.unexpectedArgument ("-" ++ String.singleton c)))

/-- With an option by its name. -/
def addLong (command : CommandName) (g : Given) (name : String) (value : Option String) :
    Except Halt Given :=
  match command.settings.find? (·.word == name) with
  | some s => g.addSetting s value
  | .none =>
    let switch := if name = "verbose" then some Switch.verbose
      else if name = "json" ∧ command.hasJson then some .json else .none
    match switch, value with
    | .none, _ =>
      if name = helpWord then
        match value with
        | some v => .error (.refused (.unexpectedValue v "--help"))
        | .none => g.askHelp
      else .error (.refused (.unexpectedArgument ("--" ++ name)))
    | some s, some v => .error (.refused (.unexpectedValue v s.shown))
    | some s, .none => g.addSwitch s

/-- With the words behind the name of a command. -/
def addWords (command : CommandName) (divided : Bool) (g : Given) :
    List String → Except Halt Given
  | [] => g.settle
  | w :: rest =>
    if divided then .error (.refused (.unexpectedArgument w))
    else match Word.ofString w with
      | .divider => g.addWords command true rest
      | .long name value => do (← g.addLong command name value).addWords command false rest
      | .short letters => do (← g.addLetters letters).addWords command false rest
      | .plain =>
        match g.pending with
        | some (s, .none) => { g with pending := some (s, some w) }.addWords command false rest
        | _ => .error (.refused (.unexpectedArgument w))

end Given

/-! ## Command lines -/

/-- What a command line asks for. -/
inductive Request where
  | version
  | help (command : Option CommandName)
  /-- A command with its options, and how often more logging is asked for before it. -/
  | run (verbose : Nat) (command : CommandName) (given : Given)
  deriving DecidableEq, Repr

namespace Request

/-- What options before the command ask for by their letters: how often more logging, if not one of
the other requests. -/
def leading (verbose : Nat) : List Char → Except UsageError (Nat ⊕ Request)
  | [] => .ok (.inl verbose)
  | c :: rest =>
    if c = 'v' then leading (verbose + 1) rest
    else if c = 'V' then .ok (.inr .version)
    else if c = 'h' then .ok (.inr (.help none))
    else .error (.unexpectedArgument ("-" ++ String.singleton c))

/-- Whether a word is taken for the name of a command. -/
def isCommand (w : String) : Bool := w == helpWord || (CommandName.ofWord? w).isSome

/-- Help with what the words behind the one for help name. No command has commands of its own. -/
def ofTopic : List String → Except UsageError Request
  | [] => .ok (.help none)
  | w :: rest =>
    if isCommand w then
      match rest with
      | [] => .ok (.help (CommandName.ofWord? w))
      | x :: _ => .error (.unknownCommand x)
    else .error (.unknownCommand w)

/-- A command with the words behind its name. -/
def ofCommand (verbose : Nat) (command : CommandName) (words : List String) :
    Except UsageError Request :=
  match Given.none.addWords command false words with
  | .ok given => .ok (.run verbose command given)
  | .error .help => .ok (.help (some command))
  | .error (.refused e) => .error e

/-- What the words of a command line ask for. -/
def ofWords (divided : Bool) (verbose : Nat) : List String → Except UsageError Request
  | [] => .error (if verbose = 0 then .noArguments else .missingCommand)
  | w :: rest =>
    if divided then
      .error (if isCommand w then .unexpectedArgument w else .unknownCommand w)
    else if w = helpWord then ofTopic rest
    else match CommandName.ofWord? w with
      | some command => ofCommand verbose command rest
      | none =>
        match Word.ofString w with
        | .divider => ofWords true verbose rest
        | .long "verbose" none => ofWords false (verbose + 1) rest
        | .long "verbose" (some v) => .error (.unexpectedValue v Switch.verbose.shown)
        | .long "version" none => .ok .version
        | .long "version" (some v) => .error (.unexpectedValue v "--version")
        | .long "help" none => .ok (.help none)
        | .long "help" (some v) => .error (.unexpectedValue v "--help")
        | .long name _ => .error (.unexpectedArgument ("--" ++ name))
        | .short letters =>
          match leading verbose letters with
          | .error e => .error e
          | .ok (.inl n) => ofWords false n rest
          | .ok (.inr r) => .ok r
        | .plain => .error (.unknownCommand w)

end Request

end AndroidAudit.CommandLine
