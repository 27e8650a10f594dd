import PddlOutline.Model.Domain
import PddlOutline.Text.Quoted

/-!
This module contains the events that are logged while documents are read, and the lines in which
they are written down.
-/

namespace PddlOutline

inductive Level
  | error
  | warn
  | info
  | debug
  | trace
deriving Repr, DecidableEq

namespace Level

/--
How much is logged at a level: the events of this level and of all lower ones.
-/
def verbosity : Level → Nat
  | .error => 1
  | .warn => 2
  | .info => 3
  | .debug => 4
  | .trace => 5

def label : Level → String
  | .error => "ERROR"
  | .warn => "WARN"
  | .info => "INFO"
  | .debug => "DEBUG"
  | .trace => "TRACE"

end Level

inductive Event
  | domainUnnamed
  | actionRead (action : Action)
  | domainRead (domain : Domain)
  | problemUnnamed
  | problemRead (problem : Problem)
  | foreignProblem (problem : Problem)
  | domainFound (problem candidate : String)
  | domainChosen (file : String)
deriving Repr, DecidableEq

namespace Event

def level : Event → Level
  | .domainUnnamed | .problemUnnamed => .warn
  | .actionRead _ => .trace
  | .domainRead _ | .problemRead _ | .foreignProblem _ | .domainFound .. => .debug
  | .domainChosen _ => .info

/--
The part of the program that an event comes from.
-/
def target : Event → String
  | .domainUnnamed | .actionRead _ => "pddlx::domain"
  | .problemUnnamed => "pddlx::problem"
  | .domainRead _ | .problemRead _ | .foreignProblem _ => "pddlx::parse"
  | .domainFound .. => "pddlx::find_file"
  | .domainChosen _ => "pddlx"

def message : Event → String
  | .domainUnnamed => "No `(domain ...)` header found, using `" ++ Domain.unknownName ++ "`"
  | .actionRead action => "action: " ++ action.signature
  | .domainRead domain => "Extracted domain `" ++ domain.name ++ "`"
  | .problemUnnamed =>
    "No `(define (problem ...) (:domain ...))` header found, using `" ++ Problem.unknownName ++ "`"
  | .problemRead problem =>
    "Extracted problem `" ++ problem.name ++ "` (domain: `" ++ problem.domainLink ++ "`)"
  | .foreignProblem problem =>
    "Problem `" ++ problem.name ++ "` declares another domain: `" ++ problem.domainLink ++ "`"
  | .domainFound problem candidate => "Domain of " ++ problem ++ " found at " ++ candidate
  | .domainChosen file => "Domain file: " ++ file

def fields : Event → List (String × Nat)
  | .domainRead domain =>
    [("requirements", domain.requirements.length), ("types", domain.types.size),
      ("constants", domain.constants.size), ("predicates", domain.predicates.length),
      ("actions", domain.actions.size)]
  | .problemRead problem =>
    [("objects", problem.objects.size), ("init", problem.init.length),
      ("goal", problem.goal.length)]
  | _ => []

end Event

/--
An event and the source of the domain if it occurs while a catalog is read.
-/
structure LogRecord where
  scope : Option String
  event : Event
deriving Repr, DecidableEq

namespace LogRecord

/--
Whether a record is kept by those who listen up to the level `max`. A build for release may also
have a static maximum such as `release_max_level_debug`, which keeps events out of the program
itself. There is none here, as in a build for development.
-/
def isVisible (max : Level) (r : LogRecord) : Bool :=
  r.event.level.verbosity ≤ max.verbosity

/--
What a line says of the scope of its event. The scope itself is on the level of debugging.
-/
def scopeText (max : Level) (r : LogRecord) : String :=
  match r.scope with
  | some source =>
    if Level.debug.verbosity ≤ max.verbosity then
      "PARSE\x7bsource=" ++ String.ofList (Text.quote source.toList) ++ "\x7d: "
    else
      ""
  | none => ""

def line (max : Level) (r : LogRecord) : String :=
  r.event.level.label ++ " " ++ r.scopeText max ++ r.event.target ++ ": "
    ++ String.ofList (Text.guarded r.event.message.toList)
    ++ String.join (r.event.fields.map fun (name, count) => " " ++ name ++ "=" ++ toString count)

def lines (max : Level) (records : List LogRecord) : List String :=
  (records.filter (isVisible max)).map (line max)

end LogRecord
end PddlOutline
