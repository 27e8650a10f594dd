import PddlOutline.Document
import PddlOutline.Header
import PddlOutline.Log.Traced
import PddlOutline.Reading.Action

/-!
This module contains the reading of a domain. Sections that are absent are read as empty; a domain
without a header gets a default name.
-/

namespace PddlOutline
namespace Domain

def readName (chars : List Char) : Traced ReadError String :=
  match Header.domainName? chars with
  | some name => pure (String.ofList name)
  | none => do
    Traced.emit .domainUnnamed
    return unknownName

def readTypedList (f : Fragment) (keyword : Keyword) : Except ReadError TypedList :=
  Section.readD f keyword .empty Section.typedList

def readRequirements (f : Fragment) : Except ReadError (List String) :=
  Section.readD f .requirements [] fun s => do
    return (← s.tokens).map Token.symbol

def readPredicates (f : Fragment) : Except ReadError (List String) :=
  Section.readD f .predicates [] Section.parts

def readActions (f : Fragment) : List Nat → Traced ReadError (List Action)
  | [] => pure []
  | offset :: offsets => do
    let action ← Traced.ofExcept (Action.read f offset)
    Traced.emit (.actionRead action)
    let actions ← readActions f offsets
    return action :: actions

/--
Actions by name. The last definition of a name wins and takes the place of the first.
-/
def indexActions (actions : List Action) : NameMap Action :=
  actions.foldl (fun index action => index.insert action.name action) .empty

def read (d : Document) : Traced ReadError Domain := do
  let f := d.fragment
  let name ← readName d.chars
  let requirements ← Traced.ofExcept (readRequirements f)
  let types ← Traced.ofExcept (readTypedList f .types)
  let constants ← Traced.ofExcept (readTypedList f .constants)
  let predicates ← Traced.ofExcept (readPredicates f)
  let actions ← readActions f (Text.occurrences Keyword.action.chars f.start f.chars)
  return {
    name, requirements, types, constants, predicates
    actions := indexActions actions
    problems := .empty
  }

end Domain
end PddlOutline
