import ColumnFormula.Check
import ColumnFormula.CommandLine.HelpPage
import ColumnFormula.Manual

/-!
The command line as a function from arguments and standard input to an exit code and two texts.
Arguments are read one after the other: an option may stand before or behind the positional
arguments, its value may follow or be attached, and behind `--` everything is positional. The first
argument that does not fit ends the reading.
-/

set_option autoImplicit false
set_option relaxedAutoImplicit false

namespace ColumnFormula

/-! ### Options -/

/-- An option of a command. A flag takes no value; of the others the value must pass `accepts`. -/
structure OptionSpec where
  long : String
  short : Option Char
  takesValue : Bool
  accepts : String → Bool

/-- The help page, the options and the number of positional arguments of a command. -/
structure CommandSpec where
  page : HelpPage
  options : List OptionSpec
  positionals : Nat

/-- Why reading the arguments ended early. -/
inductive ArgumentStop where
  | usage (reason : String)
  | help (page : HelpPage)

/-- What has been read of the arguments: the options given, the positional arguments, the option
whose value comes next, and whether `--` has been seen. -/
structure ArgumentScan where
  given : List (String × String)
  positionals : List String
  awaiting : Option OptionSpec
  literal : Bool

namespace ArgumentScan

def start : ArgumentScan := ⟨[], [], none, false⟩

/-- Notes an option with its value; every option may be given once. -/
def give (scan : ArgumentScan) (spec : OptionSpec) (value : String) :
    Except ArgumentStop ArgumentScan :=
  if (scan.given.lookup spec.long).isSome then
    .error (.usage s!"the argument '--{spec.long}' cannot be used multiple times")
  else if spec.takesValue && !spec.accepts value then
    .error (.usage s!"invalid value '{value}' for '--{spec.long}'")
  else .ok { scan with given := (spec.long, value) :: scan.given, awaiting := none }

def addPositional (command : CommandSpec) (scan : ArgumentScan) (arg : String) :
    Except ArgumentStop ArgumentScan :=
  if scan.positionals.length < command.positionals then
    .ok { scan with positionals := scan.positionals ++ [arg] }
  else .error (.usage s!"unexpected argument '{arg}'")

/-- An option by its long name, with an attached value if there is one. -/
def addLong (command : CommandSpec) (scan : ArgumentScan) (name : String)
    (attached : Option String) : Except ArgumentStop ArgumentScan :=
  match command.options.find? fun spec ↦ spec.long == name with
  | none =>
    if name = "help" ∧ attached.isNone then .error (.help command.page)
    else .error (.usage s!"unexpected argument '--{name}'")
  | some spec =>
    match spec.takesValue, attached with
    | true, some value => scan.give spec value
    | true, none => .ok { scan with awaiting := some spec }
    | false, none => scan.give spec ""
    | false, some _ => .error (.usage s!"unexpected value for '--{name}'")

/-- Options by their short names, several of them in a row; the rest behind one that takes a value
is its value. -/
def addShorts (command : CommandSpec) (scan : ArgumentScan) :
    List Char → Except ArgumentStop ArgumentScan
  | [] => .ok scan
  | c :: rest =>
    match command.options.find? fun spec ↦ spec.short == some c with
    | none =>
      if c = 'h' then .error (.help command.page)
      else .error (.usage s!"unexpected argument '-{c}'")
    | some spec =>
      if spec.takesValue then
        match rest with
        | [] => .ok { scan with awaiting := some spec }
        | '=' :: value => scan.give spec (String.ofList value)
        | value => scan.give spec (String.ofList value)
      else do
        let scan ← scan.give spec ""
        addShorts command scan rest

/-- An argument that begins with a hyphen and is not a lone one. -/
def addOption (command : CommandSpec) (scan : ArgumentScan) :
    List Char → Except ArgumentStop ArgumentScan
  | '-' :: '-' :: rest =>
    let name := rest.takeWhile (· != '=')
    let attached := match rest.dropWhile (· != '=') with
      | _ :: value => some (String.ofList value)
      | [] => none
    scan.addLong command (String.ofList name) attached
  | chars => scan.addShorts command (chars.drop 1)

/-- Reads one argument. -/
def step (command : CommandSpec) (scan : ArgumentScan) (arg : String) :
    Except ArgumentStop ArgumentScan :=
  if scan.literal then scan.addPositional command arg
  else
    let isOption := "-".toList.isPrefixOf arg.toList && arg != "-"
    match scan.awaiting with
    | some spec =>
      if isOption then .error (.usage s!"a value is required for '--{spec.long}'")
      else scan.give spec arg
    | none =>
      if arg = "--" then .ok { scan with literal := true }
      else if isOption then scan.addOption command arg.toList
      else scan.addPositional command arg

/-- Reads all arguments of a command. -/
def run (command : CommandSpec) (args : List String) : Except ArgumentStop ArgumentScan := do
  let scan ← args.foldlM (step command) start
  if let some spec := scan.awaiting then
    .error (.usage s!"a value is required for '--{spec.long}'")
  else if scan.positionals.length < command.positionals then
    .error (.usage "a required argument was not provided")
  else .ok scan

def has (scan : ArgumentScan) (long : String) : Bool := (scan.given.lookup long).isSome

/-- The first positional argument. -/
def positional (scan : ArgumentScan) : String := scan.positionals.headD ""

end ArgumentScan

/-! ### Commands -/

inductive Command where
  | check (formula : String) (isScript : Bool)
  /-- Runs a formula or script; without an input the dataset is read from standard input. -/
  | eval (formula : String) (input : Option String) (name : String) (isScript pretty : Bool)
      (options : EvalOptions)
  | manualOverview
  | manualPage (name : String)
  | help (page : HelpPage)
  | version

def flag (long : String) (short : Option Char) : OptionSpec := ⟨long, short, false, fun _ ↦ true⟩

def valued (long : String) (short : Option Char) : OptionSpec := ⟨long, short, true, fun _ ↦ true⟩

/-- Whether a text names an error policy. -/
def isPolicyName (name : String) : Bool :=
  match ErrorPolicy.ofName name with
  | .ok _ => true
  | .error _ => false

def checkSpec : CommandSpec := ⟨.check, [flag "script" none], 1⟩

def evalSpec : CommandSpec :=
  ⟨.eval, [valued "input" (some 'i'), valued "name" (some 'n'), flag "script" none,
    flag "pretty" (some 'p'), ⟨"on-error", none, true, isPolicyName⟩, flag "sequential" none], 1⟩

def docsSpec : CommandSpec := ⟨.docs, [], 0⟩

def docSpec : CommandSpec := ⟨.doc, [], 1⟩

/-- The policy that was given, or the standard one. -/
def policyOf (scan : ArgumentScan) : ErrorPolicy :=
  match (scan.given.lookup "on-error").map ErrorPolicy.ofName with
  | some (.ok policy) => policy
  | _ => EvalOptions.standard.onError

def evalCommand (scan : ArgumentScan) : Command :=
  .eval scan.positional (scan.given.lookup "input")
    ((scan.given.lookup "name").getD defaultColumnName) (scan.has "script") (scan.has "pretty")
    { EvalOptions.standard with parallel := !scan.has "sequential", onError := policyOf scan }

/-- The command of a call for help with the given topics. -/
def helpCommand : List String → Except ArgumentStop Command
  | [] => .ok (.help .program)
  | topic :: rest =>
    match HelpPage.ofCommandName? topic, rest with
    | some page, [] => .ok (.help page)
    | some _, other :: _ => .error (.usage s!"unrecognized command '{other}'")
    | none, _ => .error (.usage s!"unrecognized command '{topic}'")

/-- The program's own options: the long forms, and a group of short ones by its first letter. -/
def programOption? (arg : String) : Option Command :=
  match arg with
  | "--version" => some .version
  | "--help" => some (.help .program)
  | _ =>
    match arg.toList with
    | '-' :: 'V' :: _ => some .version
    | '-' :: 'h' :: _ => some (.help .program)
    | _ => none

/-- The command that the arguments ask for. -/
def Command.ofArguments : List String → Except ArgumentStop Command
  | [] => .error (.usage "a command is required")
  | name :: args =>
    match name with
    | "check" => (ArgumentScan.run checkSpec args).map fun scan ↦
      .check scan.positional (scan.has "script")
    | "eval" => (ArgumentScan.run evalSpec args).map evalCommand
    | "docs" => (ArgumentScan.run docsSpec args).map fun _ ↦ .manualOverview
    | "doc" => (ArgumentScan.run docSpec args).map fun scan ↦ .manualPage scan.positional
    | "help" => helpCommand args
    | other =>
      match programOption? other with
      | some command => .ok command
      | none => .error (.usage s!"unrecognized command '{other}'")

/-! ### Running -/

/-- The exit code and what is written. -/
structure Outcome where
  exit : Nat
  stdout : String
  stderr : String

def Outcome.success (stdout : String) : Outcome := ⟨0, stdout, ""⟩

def Outcome.failure (message : String) : Outcome := ⟨1, "", message ++ "\n"⟩

def Outcome.usage (reason : String) : Outcome := ⟨2, "", s!"error: {reason}\n"⟩

def versionText : String := "ccl 0.1.0\n"

/-- What a check or a run writes. -/
def CheckRequest.outcome (request : CheckRequest) (pretty : Bool) : Outcome :=
  match request.execute with
  | .error error => .failure error.message
  | .ok .syntaxValid => .success "Syntax is valid\n"
  | .ok (.dataset document) =>
    .success ((if pretty then document.pretty else document.compact) ++ "\n")

/-- Whether the command reads standard input. -/
def Command.readsInput : Command → Bool
  | .eval _ none _ _ _ _ => true
  | _ => false

/-- Runs a command; `stdin` is what standard input holds, if the command reads it. -/
def Command.run (stdin : String) : Command → Outcome
  | .check formula isScript =>
    CheckRequest.outcome ⟨formula, none, defaultColumnName, isScript, true, .standard⟩ false
  | .eval formula input name isScript pretty options =>
    CheckRequest.outcome ⟨formula, some (input.getD stdin), name, isScript, false, options⟩ pretty
  | .manualOverview => .success ManualPage.overview
  | .manualPage name =>
    match manualText name with
    | .ok text => .success text
    | .error error => .failure error.message
  | .help page => .success page.text
  | .version => .success versionText

/-- What the arguments lead to; `readInput` is used for the commands that read standard input. -/
def runArguments (args : List String) (stdin : String) : Outcome :=
  match Command.ofArguments args with
  | .ok command => command.run stdin
  | .error (.help page) => .success page.text
  | .error (.usage reason) => .usage reason

end ColumnFormula
