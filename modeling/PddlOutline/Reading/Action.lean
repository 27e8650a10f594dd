import PddlOutline.Model.Action
import PddlOutline.Reading.Section
import PddlOutline.Text.Row

/-!
This module contains the reading of an action from the group of parentheses that defines it.
-/

namespace PddlOutline
namespace Action

def isParen (c : Char) : Bool :=
  c == '(' || c == ')'

def beforeParen (cs : List Char) : List Char :=
  cs.takeWhile (!isParen ·)

def isTag (word : List Char) : Bool :=
  word.head? == some ':'

/--
The name in the definition of an action: the last word on the line of the keyword before any other
keyword or parenthesis. If there is none, it is the first word after the keyword.
-/
def name? (body : List Char) : Option (List Char) :=
  let rest := body.drop Keyword.action.size
  let header := beforeParen ((Text.lines rest).headD [])
  match ((Text.words header).takeWhile (!isTag ·)).getLast? with
  | some name => some name
  | none => do
    let word ← (Text.words rest).head?
    let name := beforeParen word
    if name.isEmpty || isTag name then none else some name

def needed (body : Fragment) (keyword : Keyword) : Except ReadError Section := do
  match ← Section.first body keyword with
  | some found => return found
  | none => throw (.missingSection keyword (some body.span))

def ofFragment (body : Fragment) : Except ReadError Action := do
  match name? body.chars with
  | none =>
    throw (.malformed .missingActionName (some ⟨body.start, body.start + Keyword.action.size⟩))
  | some name =>
    let parameters ← (← needed body .parameters).tokens
    let parameters ← Parameters.ofTokens parameters
    let preconditions ← (← needed body .precondition).expressions
    let effects ← (← needed body .effect).expressions
    return ⟨String.ofList name, parameters, preconditions, effects⟩

def read (f : Fragment) (offset : Nat) : Except ReadError Action := do
  let nesting ← Section.delimit f .action offset
  let body ← f.slice nesting.outer.span
  ofFragment body

end Action
end PddlOutline
