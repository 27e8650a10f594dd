import PddlOutline.CommandLine.Argument
import PddlOutline.Files.Path
import PddlOutline.Log.Event

/-!
This module contains the options of the command line and how they are read from its arguments.
-/

namespace PddlOutline
namespace CommandLine

inductive Format
  | json
  | text
deriving Repr, DecidableEq

structure Options where
  domain : Option Path
  problems : List Path
  format : Format
  compact : Bool
  level : Level
deriving Repr, DecidableEq

inductive UsageError
  | helpRequested
  | unknownArgument (argument : String)
  | missingValue (option : OptionName)
  | invalidValue (option : OptionName) (value : String)
  | repeated (option : String)
  | emptyPath
  | noProblems
deriving Repr, DecidableEq

def usage : String :=
  "Usage: pddlx [OPTIONS] <PROBLEMS>...\n\n"
    ++ "Options:\n"
    ++ "  -d, --domain <DOMAIN>        the domain file\n"
    ++ "  -f, --format <FORMAT>        json or text\n"
    ++ "      --compact                print JSON on a single line\n"
    ++ "  -l, --log-level <LOG_LEVEL>  error, warn, info, debug or trace\n"
    ++ "  -h, --help                   print this text"

namespace UsageError

def message : UsageError → String
  | .helpRequested => "help requested"
  | .unknownArgument argument => "unexpected argument '" ++ argument ++ "'"
  | .missingValue option => "a value is required for '--" ++ option.long ++ "'"
  | .invalidValue option value => "invalid value '" ++ value ++ "' for '--" ++ option.long ++ "'"
  | .repeated option => "the argument '--" ++ option ++ "' cannot be used multiple times"
  | .emptyPath => "a path must not be empty"
  | .noProblems => "at least one problem is required"

end UsageError

structure Given where
  domain : Option Path
  problems : List Path
  format : Option Format
  compact : Bool
  level : Option Level
deriving Repr, DecidableEq

namespace Given

def empty : Given :=
  ⟨none, [], none, false, none⟩

def path (text : String) : Except UsageError Path :=
  if text.isEmpty then .error .emptyPath else .ok (Path.ofString text)

def addProblem (g : Given) (text : String) : Except UsageError Given := do
  let p ← path text
  return { g with problems := g.problems ++ [p] }

end Given

def Format.ofString? (name : String) : Option Format :=
  if name = "json" then
    some .json
  else if name = "text" then
    some .text
  else
    none

/--
A number that is written with decimal digits, which a plus sign may precede.
-/
def number? (cs : List Char) : Option Nat :=
  let digits := match cs with
    | '+' :: digits => digits
    | digits => digits
  if digits.isEmpty || !digits.all Char.isDigit then
    none
  else
    some (digits.foldl (fun n c => 10 * n + (c.toNat - 48)) 0)

def levels : List Level :=
  [.error, .warn, .info, .debug, .trace]

def level? (name : String) : Option Level :=
  levels.find? fun level =>
    number? name.toList == some level.verbosity
      || name.toList.map Char.toUpper == level.label.toList

namespace Given

/--
Give a value to an option, which must not have one.
-/
def setValue (g : Given) (option : OptionName) (value : String) : Except UsageError Given :=
  match option with
  | .domain =>
    if g.domain.isSome then
      .error (.repeated option.long)
    else
      (path value).map fun p => { g with domain := some p }
  | .format =>
    if g.format.isSome then
      .error (.repeated option.long)
    else
      match Format.ofString? value with
      | some format => .ok { g with format := some format }
      | none => .error (.invalidValue option value)
  | .logLevel =>
    if g.level.isSome then
      .error (.repeated option.long)
    else
      match level? value with
      | some level => .ok { g with level := some level }
      | none => .error (.invalidValue option value)

/--
Read arguments from left to right. The value of an option may be the next argument unless that
looks like an option itself.
-/
def ofArguments (g : Given) : List String → Except UsageError Given
  | [] => .ok g
  | argument :: arguments =>
    match Argument.ofString argument with
    | .operand text => do
      let g ← g.addProblem text
      g.ofArguments arguments
    | .valued option (some value) => do
      let g ← g.setValue option value
      g.ofArguments arguments
    | .valued option none =>
      match arguments with
      | [] => .error (.missingValue option)
      | value :: arguments =>
        match Argument.ofString value with
        | .operand value => do
          let g ← g.setValue option value
          g.ofArguments arguments
        | _ => .error (.missingValue option)
    | .compact =>
      if g.compact then
        .error (.repeated "compact")
      else
        ofArguments { g with compact := true } arguments
    | .help => .error .helpRequested
    | .endOfOptions => arguments.foldlM addProblem g
    | .unknown => .error (.unknownArgument argument)

end Given

namespace Options

/--
The level that is logged at: the option wins over the environment.
-/
def chooseLevel (given : Option Level) (environment : Option String) : Except UsageError Level :=
  match given, environment with
  | some level, _ => .ok level
  | none, none => .ok .warn
  | none, some name =>
    match level? name with
    | some level => .ok level
    | none => .error (.invalidValue .logLevel name)

def ofArguments (arguments : List String) (environment : Option String) :
    Except UsageError Options := do
  let given ← Given.empty.ofArguments arguments
  let level ← chooseLevel given.level environment
  if given.problems.isEmpty then
    throw .noProblems
  return {
    domain := given.domain
    problems := given.problems
    format := given.format.getD .json
    compact := given.compact
    level
  }

end Options
end CommandLine
end PddlOutline
