/-!
This module contains the keywords by which the sections of a document are found.
-/

namespace PddlOutline

inductive Keyword
  | requirements
  | types
  | constants
  | predicates
  | action
  | parameters
  | precondition
  | effect
  | objects
  | init
  | goal
deriving Repr, DecidableEq

namespace Keyword

/--
How a keyword stands to the group of parentheses that it tags.
-/
inductive Form
  /-- The group opens with the keyword. -/
  | block
  /-- The group follows the keyword. -/
  | value
deriving Repr, DecidableEq

def text : Keyword → String
  | .requirements => "(:requirements"
  | .types => "(:types"
  | .constants => "(:constants"
  | .predicates => "(:predicates"
  | .action => "(:action"
  | .parameters => ":parameters"
  | .precondition => ":precondition"
  | .effect => ":effect"
  | .objects => "(:objects"
  | .init => "(:init"
  | .goal => "(:goal"

def chars (k : Keyword) : List Char :=
  k.text.toList

/--
The length of a keyword, in bytes as well as in characters.
-/
def size (k : Keyword) : Nat :=
  k.chars.length

def form : Keyword → Form
  | .parameters | .precondition | .effect => .value
  | _ => .block

theorem form_eq_block_iff (k : Keyword) : k.form = .block ↔ k.chars.head? = some '(' := by
  cases k <;> decide

end Keyword
end PddlOutline
