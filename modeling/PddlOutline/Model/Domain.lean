import PddlOutline.Model.Action
import PddlOutline.Model.Problem

/-!
This module contains domains together with the problems that were read for them.
-/

namespace PddlOutline

structure Domain where
  name : String
  requirements : List String
  types : TypedList
  constants : TypedList
  /-- The signatures of the predicates as they stand in the document. -/
  predicates : List String
  actions : NameMap Action
  problems : NameMap Problem
deriving Repr, DecidableEq

namespace Domain

def unknownName : String := "unknown_domain"

def addProblem (d : Domain) (p : Problem) : Domain :=
  { d with problems := d.problems.insert p.name p }

def toText (d : Domain) : String :=
  "# Domain : " ++ d.name
    ++ "\n# Requirements \n  " ++ String.intercalate " " d.requirements
    ++ "\n# Types \n  " ++ d.types.toText
    ++ "\n# Constants \n  " ++ d.constants.toText
    ++ "\n# Predicates \n  " ++ String.intercalate "\n  " d.predicates
    ++ "\n# Actions \n  " ++ String.intercalate "\n  " (d.actions.values.map Action.signature)

end Domain
end PddlOutline
