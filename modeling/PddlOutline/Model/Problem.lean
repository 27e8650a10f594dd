import PddlOutline.TypedList

/-!
This module contains problems: the objects, the initial state and the goal of a planning task.
-/

namespace PddlOutline

structure Problem where
  name : String
  /-- The domain that the problem says it belongs to. -/
  domainLink : String
  objects : TypedList
  init : List String
  goal : List String
deriving Repr, DecidableEq

namespace Problem

def unknownName : String := "unknown_problem"

def toText (p : Problem) : String :=
  "# Problem : " ++ p.name ++ " (domain: " ++ p.domainLink ++ ")"
    ++ "\n# Objects \n  " ++ p.objects.toText
    ++ "\n# Initial State \n  " ++ String.intercalate "\n  " p.init
    ++ "\n# Goal \n  " ++ String.intercalate "\n  " p.goal

end Problem
end PddlOutline
