import PddlOutline.Files.Access
import PddlOutline.Text.Quoted

/-!
This module contains the search for the domain of a problem. The name of the problem's file gives
candidate names, some of which are better than others, and the directory of this file gives
directories to look in. A better name in a directory further away wins over a worse name nearby.
-/

namespace PddlOutline
namespace Discovery

/--
What stands before `ending`, if it may be the stem of a name: it is not empty and has no line feed.
-/
def stem? (ending name : List Char) : Option (List Char) :=
  if ending.isSuffixOf name then
    let stem := name.take (name.length - ending.length)
    if stem.isEmpty || stem.contains '\n' then none else some stem
  else
    none

def beforeExtension? (cs : List Char) : Option (List Char) :=
  match cs.reverse.span (· ≠ '.') with
  | ([], _) => none
  | (_, []) => none
  | (_, _ :: front) => some front.reverse

def problemStem? (name : List Char) : Option (List Char) :=
  stem? ".pb.pddl".toList name

/--
The stem `X` of a problem `X.Y.pb.pddl`, of which there are several with the same domain.
-/
def seriesStem? (name : List Char) : Option (List Char) :=
  let ending := ".pb.pddl".toList
  if ending.isSuffixOf name then
    (beforeExtension? (name.take (name.length - ending.length))).bind (stem? [])
  else
    none

def instanceNumber? (name : List Char) : Option (List Char) := do
  let stem ← stem? ".pddl".toList name
  let opening := "instance-".toList
  let number := stem.drop opening.length
  if opening.isPrefixOf stem && !number.isEmpty && number.all Char.isDigit then
    some number
  else
    none

def conventionalNames (name : List Char) : List (List Char) :=
  let domainOf (stem : List Char) : List Char := stem ++ ".dom.pddl".toList
  let after (stem : List Char) : List Char := stem ++ "-domain.pddl".toList
  let before (stem : List Char) : List Char := "domain-".toList ++ stem ++ ".pddl".toList
  let plain := stem? ".pddl".toList name
  "domain.pddl".toList :: List.filterMap id
    [(seriesStem? name).map domainOf, (problemStem? name).map domainOf, plain.map after,
      plain.map before, (instanceNumber? name).map before]

def domainNames (name : List Char) : List (List Char) :=
  (conventionalNames name).eraseDups

def domainsDirectory : Path := Path.ofString "domains"

/--
The directories to look in: that of the problem, the one above it and `domains` in the latter.
-/
def directories (problem : Path) : List Path :=
  match problem.parent? with
  | none => []
  | some directory =>
    match directory.parent? with
    | none => [directory]
    | some above => [directory, above, above.join domainsDirectory]

def candidates (problem : Path) (names : List (List Char)) : List Path :=
  names.flatMap fun name =>
    (directories problem).map fun directory => directory.join (Path.ofString (String.ofList name))

inductive SearchError
  | noFileName
  | notText
  | notFound (names : List (List Char))
deriving Repr, DecidableEq

namespace SearchError

def message : SearchError → String
  | .noFileName => "Invalid file"
  | .notText => "Could not convert file name to utf8"
  | .notFound names =>
    "Could not find a domain file in the same or parent directory as the problem file. Candidates: "
      ++ String.ofList (Text.quoteList names)

end SearchError

def namesFor (problem : Path) : Except SearchError (List (List Char)) :=
  match problem.fileName? with
  | none => .error .noFileName
  | some bytes =>
    match Path.decode? bytes with
    | none => .error .notText
    | some name => .ok (domainNames name.toList)

variable {m : Type → Type} [Monad m]

def find (files : FileAccess m) (problem : Path) : m (Except SearchError Path) :=
  match namesFor problem with
  | .error e => return .error e
  | .ok names => do
    match ← files.firstReached? (candidates problem names) with
    | some path => return .ok path
    | none => return .error (.notFound names)

end Discovery
end PddlOutline
