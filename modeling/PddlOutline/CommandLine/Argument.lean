/-!
This module contains the forms that a single argument of the command line can have. A value may be
attached to an option as in `--name=value`, `-nvalue` or `-n=value`, or be an argument of its own.
-/

namespace PddlOutline
namespace CommandLine

inductive OptionName
  | domain
  | format
  | logLevel
deriving Repr, DecidableEq

namespace OptionName

def long : OptionName → String
  | .domain => "domain"
  | .format => "format"
  | .logLevel => "log-level"

def short : OptionName → Char
  | .domain => 'd'
  | .format => 'f'
  | .logLevel => 'l'

def all : List OptionName :=
  [.domain, .format, .logLevel]

end OptionName

inductive Argument
  | operand (text : String)
  | valued (option : OptionName) (attached : Option String)
  | compact
  | help
  | endOfOptions
  | unknown
deriving Repr, DecidableEq

namespace Argument

def ofLong (body : List Char) : Argument :=
  let name := String.ofList (body.takeWhile (· ≠ '='))
  let attached := match body.dropWhile (· ≠ '=') with
    | [] => none
    | _ :: value => some (String.ofList value)
  match OptionName.all.find? (·.long == name) with
  | some option => .valued option attached
  | none =>
    if attached.isSome then
      .unknown
    else if name = "compact" then
      .compact
    else if name = "help" then
      .help
    else
      .unknown

def ofShort (letter : Char) (rest : List Char) : Argument :=
  let attached := match rest with
    | [] => none
    | '=' :: value => some (String.ofList value)
    | value => some (String.ofList value)
  match OptionName.all.find? (·.short == letter) with
  | some option => .valued option attached
  | none => if letter = 'h' then .help else .unknown

def ofString (argument : String) : Argument :=
  match argument.toList with
  | ['-', '-'] => .endOfOptions
  | '-' :: '-' :: body => ofLong body
  | '-' :: letter :: rest => ofShort letter rest
  | _ => .operand argument

end Argument

end CommandLine
end PddlOutline
