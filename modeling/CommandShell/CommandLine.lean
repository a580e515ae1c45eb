import CommandShell.Text.Digit
import CommandShell.Text.Quoted

/-!
# The command line

The options that the program is called with.  An option with two dashes may be shortened as long as
it stays unambiguous, and takes its value from the next argument or after `=`.  Options with one
dash may be written together, and the rest of the argument is the value of one that takes a value.
What looks like an option is never a value, unless it is a negative number or holds a space.

## Main definitions

* `ProgramOption`: the options.
* `Argument`: how a single argument is read.
* `OptionValue`: what is known of the value of an option.
* `ProgramOptions`: what the options set.
* `CommandLine`: what a command line asks for.
* `CommandLine.read`: the command line that some arguments are.
* `CommandLineError.message`: what is reported for a command line that is refused.
-/

namespace CommandShell

/-- The options of the program. -/
inductive ProgramOption where
  /-- Describes the options. -/
  | help
  /-- Tells the version. -/
  | version
  /-- Gives the line to be run. -/
  | command
  /-- Gives the file of the settings. -/
  | config
  /-- Keeps no state. -/
  | noState
deriving DecidableEq, Repr

namespace ProgramOption

/-- All options, in the order in which they are described. -/
def all : List ProgramOption :=
  [help, version, command, config, noState]

/-- How an option is written. -/
def names : ProgramOption → List String
  | help => ["-h", "--help"]
  | version => ["-v", "--version"]
  | command => ["-c", "--command"]
  | config => ["--config"]
  | noState => ["--no-state"]

/-- Whether an option takes a value. -/
def takesValue : ProgramOption → Bool
  | command | config => true
  | _ => false

/-- All ways to write an option, each with the option. -/
def spellings : List (String × ProgramOption) :=
  all.flatMap fun o => o.names.map fun n => (n, o)

/-- The option that is written in a given way. -/
def ofName? (s : String) : Option ProgramOption :=
  (spellings.find? (·.1 == s)).map (·.2)

end ProgramOption

/-- Why a command line is refused. -/
inductive CommandLineError where
  /-- A shortened option may stand for several. -/
  | ambiguous (argument : String) (names : List String)
  /-- An option has no value. -/
  | missingValue (o : ProgramOption)
  /-- An option that takes no value has one. -/
  | unwantedValue (o : ProgramOption) (value : String)
  /-- Some arguments mean nothing. -/
  | unrecognized (arguments : List String)
deriving DecidableEq, Repr

/-- What is reported for a command line that is refused. -/
def CommandLineError.message : CommandLineError → String
  | ambiguous argument names =>
    "ambiguous option: " ++ argument ++ " could match " ++ ", ".intercalate names
  | missingValue o => "argument " ++ "/".intercalate o.names ++ ": expected one argument"
  | unwantedValue o value =>
    "argument " ++ "/".intercalate o.names ++ ": ignored explicit argument " ++ quoted value
  | unrecognized arguments => "unrecognized arguments: " ++ " ".intercalate arguments

/-- An option as it was written. -/
structure WrittenOption where
  /-- The option. -/
  option : ProgramOption
  /-- Whether it was written with one dash. -/
  single : Bool
  /-- What follows the option in its argument, if anything may be its value. -/
  value : Option String := none

/-- How a single argument is read. -/
inductive Argument where
  /-- It may be a value. -/
  | plain
  /-- It looks like an option, but is none. -/
  | unknown
  /-- It ends the options. -/
  | separator
  /-- It is an option. -/
  | option (o : WrittenOption)

namespace Chars

/-- Whether some characters are a negative number; a line feed may follow. -/
def isNegativeNumber (cs : List Char) : Bool :=
  match cs with
  | '-' :: rest =>
    let rest := match rest.reverse with
      | '\n' :: up => up.reverse
      | _ => rest
    let tail := rest.dropWhile isDigit
    if tail.isEmpty then !rest.isEmpty
    else
      match tail with
      | '.' :: decimals => !decimals.isEmpty && decimals.all isDigit
      | _ => false
  | _ => false

end Chars

namespace Argument

/-- The text before the first equals sign and the text after it, if there is one. -/
def splitAtEquals (s : String) : String × Option String :=
  match s.toList.dropWhile (· ≠ '=') with
  | [] => (s, none)
  | _ :: rest => (String.ofList (s.toList.takeWhile (· ≠ '=')), some (String.ofList rest))

/-- The options that an argument with two dashes may be short for, each with its spelling. -/
def shortened (s : String) : List (String × WrittenOption) :=
  let (start, value) := splitAtEquals s
  (ProgramOption.spellings.filter fun e => start.toList.isPrefixOf e.1.toList).map fun e =>
    (e.1, ⟨e.2, false, value⟩)

/-- The option with one dash that an argument starts with, with its spelling. -/
def clustered (s : String) : List (String × WrittenOption) :=
  let short := String.ofList (s.toList.take 2)
  match ProgramOption.ofName? short with
  | some o => [(short, ⟨o, true, some (String.ofList (s.toList.drop 2))⟩)]
  | none => []

/-- The option that an argument is up to its equals sign, if it is written out. -/
def writtenOut? (s : String) : Option WrittenOption :=
  let single := !s.startsWith "--"
  match ProgramOption.ofName? s with
  | some o => some { option := o, single := single }
  | none =>
    match splitAtEquals s with
    | (name, some value) =>
      (ProgramOption.ofName? name).map fun o => ⟨o, single, some value⟩
    | (_, none) => none

/-- How a single argument is read. -/
def read (s : String) : Except CommandLineError Argument :=
  if !s.startsWith "-" || s = "-" then .ok .plain
  else
    match writtenOut? s with
    | some o => .ok (.option o)
    | none =>
      match if s.startsWith "--" then shortened s else clustered s with
      | [(_, o)] => .ok (.option o)
      | [] =>
        if Chars.isNegativeNumber s.toList || s.toList.contains ' ' then .ok .plain
        else .ok .unknown
      | several => .error (.ambiguous s (several.map (·.1)))

/-- How all arguments are read: after `--` nothing is an option. -/
def readAll : List String → Except CommandLineError (List (String × Argument))
  | [] => .ok []
  | "--" :: rest => .ok (("--", separator) :: rest.map fun s => (s, plain))
  | s :: rest => do
    let a ← read s
    return (s, a) :: (← readAll rest)

end Argument

/-- What is known of the value of an option. -/
inductive OptionValue where
  /-- The option was not given. -/
  | absent
  /-- The option was given with `--` as its value, which is no value at all. -/
  | missing
  /-- The option was given with a value. -/
  | given (text : String)
deriving DecidableEq, Repr

namespace OptionValue

/-- What is known of the value of an option after a text was given for it. -/
def ofText (s : String) : OptionValue :=
  if s = "--" then missing else given s

/-- The value that was given, unless it is empty. -/
def nonEmpty? : OptionValue → Option String
  | given s => if s = "" then none else some s
  | absent | missing => none

end OptionValue

/-- What the options set. -/
structure ProgramOptions where
  /-- The line to be run. -/
  command : OptionValue := .absent
  /-- The file of the settings. -/
  config : OptionValue := .absent
  /-- Whether no state is kept. -/
  noState : Bool := false
deriving DecidableEq, Repr

/-- What a command line asks for. -/
inductive CommandLine where
  /-- To describe the options. -/
  | help
  /-- To tell the version. -/
  | version
  /-- To run with some options. -/
  | run (o : ProgramOptions)
deriving DecidableEq, Repr

/-- What the options of one argument come to: options with their values, and maybe an option whose
value must come next. -/
structure Cluster where
  /-- The options with their values. -/
  given : List (ProgramOption × Option String) := []
  /-- The option whose value must come next. -/
  open? : Option ProgramOption := none

namespace Cluster

/-- The cluster with one more option in front. -/
def cons (o : ProgramOption) (c : Cluster) : Cluster :=
  { c with given := (o, none) :: c.given }

/-- The cluster of an option that nothing follows in its argument. -/
def single (o : ProgramOption) : Cluster :=
  if o.takesValue then { open? := some o } else { given := [(o, none)] }

/-- The options of an argument with one dash, where the given characters follow the option `o`. -/
def ofChars (o : ProgramOption) : List Char → Except CommandLineError Cluster
  | [] =>
    if o.takesValue then .ok { given := [(o, some "")] } else .error (.unwantedValue o "")
  | c :: rest =>
    if o.takesValue then .ok { given := [(o, some (String.ofList (c :: rest)))] }
    else
      match ProgramOption.ofName? (String.ofList ['-', c]), rest with
      -- What follows is no option, so it could only be a value.
      | none, _ => .error (.unwantedValue o (String.ofList (c :: rest)))
      | some next, [] => .ok (cons o (single next))
      | some next, d :: more => (ofChars next (d :: more)).map (cons o)

/-- The options of an argument. -/
def ofOption (o : WrittenOption) : Except CommandLineError Cluster :=
  match o.value with
  | none => .ok (single o.option)
  | some value =>
    if o.single then ofChars o.option value.toList
    else if o.option.takesValue then .ok { given := [(o.option, some value)] }
    else .error (.unwantedValue o.option value)

end Cluster

namespace CommandLine

/-- What some options with their values set on top of others, unless one of them asks for something
else than to run. -/
def apply (s : ProgramOptions) : List (ProgramOption × Option String) → ProgramOptions ⊕ CommandLine
  | [] => .inl s
  | (o, value) :: rest =>
    let value := (value.map OptionValue.ofText).getD .missing
    match o with
    | .help => .inr .help
    | .version => .inr .version
    | .command => apply { s with command := value } rest
    | .config => apply { s with config := value } rest
    | .noState => apply { s with noState := true } rest

/-- The command line that the rest of the arguments make after what the options before set; `extras`
holds, in reverse, what means nothing. -/
def readFrom (s : ProgramOptions) (extras : List String) :
    List (String × Argument) → Except CommandLineError CommandLine
  | [] => if extras.isEmpty then .ok (.run s) else .error (.unrecognized extras.reverse)
  | (_, .option o) :: rest =>
    match Cluster.ofOption o, rest with
    | .error e, _ => .error e
    | .ok ⟨given, none⟩, rest =>
      match apply s given with
      | .inl s => readFrom s extras rest
      | .inr asked => .ok asked
    -- The value of the last option stands in the next argument, unless this looks like an option.
    | .ok ⟨given, some next⟩, (value, .plain) :: rest =>
      match apply s (given ++ [(next, some value)]) with
      | .inl s => readFrom s extras rest
      | .inr asked => .ok asked
    | .ok ⟨_, some next⟩, _ => .error (.missingValue next)
  | (s', _) :: rest => readFrom s (s' :: extras) rest

/-- The command line that some arguments are. -/
def read (arguments : List String) : Except CommandLineError CommandLine := do
  readFrom {} [] (← Argument.readAll arguments)

end CommandLine

end CommandShell
