import PddlOutline.Parameters

/-!
This module contains the actions of a domain. Their preconditions and effects are kept as they
stand in the document.
-/

namespace PddlOutline

structure Action where
  name : String
  parameters : Parameters
  preconditions : List String
  effects : List String
deriving Repr, DecidableEq

namespace Action

def signature (a : Action) : String :=
  a.name ++ "(" ++ a.parameters.toText ++ ")"

end Action
end PddlOutline
