import PddlOutline.Expressions
import PddlOutline.TypedList

/-!
This module contains sections, the groups of parentheses that a keyword tags, and what can be read
from them: tokens, expressions or groups as they stand.
-/

namespace PddlOutline

structure Section where
  keyword : Keyword
  fragment : Fragment
  nesting : Nesting
deriving Repr, DecidableEq

namespace Section

/--
The first group of parentheses at or after `offset`, where `keyword` stands.
-/
def delimit (f : Fragment) (keyword : Keyword) (offset : Nat) : Except ReadError Nesting :=
  match Nesting.first f offset with
  | .ok nesting => .ok nesting
  | .error (.unopened i) => .error (.malformed .unopened (some ⟨i, i + 1⟩))
  | .error (.unclosed i) => .error (.malformed .unclosed (some ⟨i, i + 1⟩))
  | .error .noGroup =>
    .error (.malformed (.missingValue keyword) (some ⟨offset, offset + keyword.size⟩))

def checkValue (f : Fragment) (keyword : Keyword) (offset : Nat) (nesting : Nesting) :
    Except ReadError Unit := do
  let tag : Span := ⟨offset, offset + keyword.size⟩
  let gap ← f.slice ⟨tag.stop, nesting.outer.opening⟩
  if Text.allBlank gap.chars then
    return ()
  else
    throw (.malformed (.missingValue keyword) (some tag))

def first (f : Fragment) (keyword : Keyword) : Except ReadError (Option Section) :=
  match (Text.occurrences keyword.chars f.start f.chars).head? with
  | none => .ok none
  | some offset => do
    let nesting ← delimit f keyword offset
    if keyword.form = .value then
      checkValue f keyword offset nesting
    return some ⟨keyword, f, nesting⟩

/--
What `read` makes of the section of a keyword, or `absent` if the keyword does not occur.
-/
def readD {α : Type} (f : Fragment) (keyword : Keyword) (absent : α)
    (read : Section → Except ReadError α) : Except ReadError α := do
  match ← first f keyword with
  | some found => read found
  | none => return absent

/--
The words inside the section, of which the keyword is none.
-/
def tokens (s : Section) : Except ReadError (List Token) := do
  let inside ← s.fragment.slice s.nesting.outer.inside
  match s.keyword.form with
  | .block => return inside.tokens.drop 1
  | .value => return inside.tokens

def typedList (s : Section) : Except ReadError TypedList := do
  TypedList.ofTokens (← s.tokens)

/--
The expressions of the section, where a conjunction that comes first stands for its conjuncts.
-/
def expressions (s : Section) : Except ReadError (List String) := do
  let candidates := match s.keyword.form with
    | .block => s.nesting.inner
    | .value => s.nesting.groups
  let found ← s.fragment.expressions candidates
  return found.map Fragment.text

def parts (s : Section) : Except ReadError (List String) := do
  let found ← s.fragment.slices (Group.outermost s.nesting.inner)
  return found.map Fragment.text

end Section
end PddlOutline
