import PddlOutline.Text.Fragment

/-!
This module contains the matching of parentheses, the only structure that reading relies on. A
scan starts at some offset and ends where the first group of parentheses is closed; what follows
this group is ignored, even if it is unbalanced.
-/

namespace PddlOutline

structure Group where
  opening : Nat
  closing : Nat
deriving Repr, DecidableEq

namespace Group

def span (g : Group) : Span :=
  ⟨g.opening, g.closing + 1⟩

def inside (g : Group) : Span :=
  ⟨g.opening + 1, g.closing⟩

def le (a b : Group) : Bool :=
  a.opening < b.opening || (a.opening == b.opening && a.closing ≤ b.closing)

end Group

inductive Side
  | opening
  | closing
deriving Repr, DecidableEq

structure Mark where
  offset : Nat
  side : Side
deriving Repr, DecidableEq

namespace Fragment

def marks (f : Fragment) : List Mark :=
  go f.start f.chars
where
  go (offset : Nat) : List Char → List Mark
    | [] => []
    | c :: cs =>
      if c = '(' then
        ⟨offset, .opening⟩ :: go (offset + c.utf8Size) cs
      else if c = ')' then
        ⟨offset, .closing⟩ :: go (offset + c.utf8Size) cs
      else
        go (offset + c.utf8Size) cs

end Fragment

inductive NestingError
  | unopened (offset : Nat)
  /-- The parenthesis that was opened first is never closed. -/
  | unclosed (offset : Nat)
  | noGroup
deriving Repr, DecidableEq

namespace NestingError

def message : NestingError → String
  | .unopened _ => "closing parenthesis without a matching opening one"
  | .unclosed _ => "unclosed parenthesis"
  | .noGroup => "expected a parenthesized expression"

def offset? : NestingError → Option Nat
  | .unopened offset => some offset
  | .unclosed offset => some offset
  | .noGroup => none

end NestingError

/--
The first balanced group of a text and all groups inside it, which are sorted by their opening
parenthesis.
-/
structure Nesting where
  outer : Group
  inner : List Group
deriving Repr, DecidableEq

namespace Nesting

def groups (b : Nesting) : List Group :=
  b.outer :: b.inner

def size (b : Nesting) : Nat :=
  b.groups.length

def isEmpty (b : Nesting) : Bool :=
  b.groups.isEmpty

def closeOf? (b : Nesting) (opening : Nat) : Option Nat :=
  (b.groups.find? (·.opening == opening)).map Group.closing

/--
An open parenthesis and the groups closed inside it, of which the one opened last comes first.
-/
structure Frame where
  opening : Nat
  inside : List Group

/--
Match parentheses until the first group is closed. The innermost open parenthesis is the first of
the frames.
-/
def ofMarks : List Mark → Except NestingError Nesting :=
  go []
where
  go (frames : List Frame) : List Mark → Except NestingError Nesting
    | [] =>
      match frames.getLast? with
      | some frame => .error (.unclosed frame.opening)
      | none => .error .noGroup
    | ⟨offset, .opening⟩ :: marks => go (⟨offset, []⟩ :: frames) marks
    | ⟨offset, .closing⟩ :: marks =>
      match frames with
      | [] => .error (.unopened offset)
      | [frame] => .ok ⟨⟨frame.opening, offset⟩, frame.inside.reverse⟩
      | frame :: ⟨opening, inside⟩ :: frames =>
        let closed := frame.inside ++ ⟨frame.opening, offset⟩ :: inside
        go (⟨opening, closed⟩ :: frames) marks

/--
The first group of a fragment at or after the offset `start`, which need not be the place of a
character.
-/
def first (f : Fragment) (start : Nat) : Except NestingError Nesting :=
  ofMarks (f.marks.filter (start ≤ ·.offset))

end Nesting
end PddlOutline
