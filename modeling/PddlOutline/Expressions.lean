import PddlOutline.Nesting
import PddlOutline.ReadError

/-!
This module contains the choice of the expressions of a section among the groups of parentheses in
it, for instance the facts of an initial state or the conditions of a goal. A conjunction that
comes first stands for its conjuncts.
-/

open List

namespace PddlOutline
namespace Group

def insertSorted (g : Group) : List Group → List Group
  | [] => [g]
  | h :: hs => if le g h then g :: h :: hs else h :: insertSorted g hs

/--
Sorting by insertion, which is linear for the groups of a scan because they are sorted already.
-/
def sort (gs : List Group) : List Group :=
  gs.foldr insertSorted []

theorem insertSorted_perm (g : Group) (gs : List Group) : insertSorted g gs ~ g :: gs := by
  fun_induction insertSorted g gs with
  | case1 => rfl
  | case2 => rfl
  | case3 h hs _ ih =>
    apply Perm.trans
    . exact Perm.cons h ih
    . apply Perm.swap

theorem sort_perm (gs : List Group) : sort gs ~ gs := by
  induction gs with
  | nil => rfl
  | cons g gs ih =>
    apply Perm.trans
    . apply insertSorted_perm
    . exact Perm.cons g ih

/--
Go through groups in order and leave out those that open before the last one kept has closed.
-/
def sweep (consumed : Option Nat) : List Group → List Group
  | [] => []
  | g :: gs =>
    if consumed.any (g.opening ≤ ·) then
      sweep consumed gs
    else
      g :: sweep (some g.closing) gs

def outermost (gs : List Group) : List Group :=
  sweep none (sort gs)

end Group

namespace Text

def isAtom (c : Char) : Bool :=
  !isBlank c && c != '(' && c != ')'

def leadingName? : List Char → Option (List Char)
  | '(' :: inside =>
    let name := (trimStart inside).takeWhile isAtom
    if name.isEmpty then none else some name
  | _ => none

/--
Whether an expression has no meaning but that of its parts: `(and ...)` or `()`.
-/
def isConjunction (expr : List Char) : Bool :=
  match leadingName? expr with
  | some name => sameLetters name "and".toList
  | none =>
    match expr with
    | '(' :: inside => (trimStart inside).head? == some ')'
    | _ => false

end Text

namespace Fragment

def unwrap (f : Fragment) : List Group → Except ReadError (List Group)
  | [] => .ok []
  | g :: gs => do
    let expr ← f.slice g.span
    return if Text.isConjunction expr.chars then gs else g :: gs

def slices (f : Fragment) (gs : List Group) : Except ReadError (List Fragment) :=
  gs.mapM fun g => f.slice g.span

/--
The expressions among the candidate groups that are not nested in another one, in order. If the
first candidate is a conjunction, it is left out in favour of what it holds.
-/
def expressions (f : Fragment) (candidates : List Group) : Except ReadError (List Fragment) := do
  let kept ← f.unwrap (Group.sort candidates)
  f.slices (Group.outermost kept)

end Fragment
end PddlOutline
