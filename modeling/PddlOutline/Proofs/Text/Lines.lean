import Mathlib.Data.List.Basic
import PddlOutline.Proofs.Text.Spacing

/-!
This module contains how a text divides into lines at its line feeds. A carriage return right before
a line feed belongs to the line break, so it is the one character besides the line feeds that no
line holds.
-/

namespace PddlOutline

/--
The row of a line with a line feed behind it.
-/
def Row.ofLine (line : List Char) : Row :=
  if line.getLast? = some '\r' then ⟨line.dropLast, ['\r', '\n']⟩ else ⟨line, ['\n']⟩

theorem Row.whole_ofLine (line : List Char) : (ofLine line).whole = line ++ ['\n'] := by
  unfold ofLine
  split
  next h =>
    show line.dropLast ++ ['\r', '\n'] = _
    rw [List.append_cons, List.dropLast_append_getLast? '\r' h]
  next => rfl

theorem Row.cons_ofLine {c : Char} (hc : c ≠ '\n') (line : List Char) (rows : List Row) :
    cons c (ofLine line :: rows) = ofLine (c :: line) :: rows := by
  rw [cons, if_neg hc]
  cases line with
  | nil =>
    by_cases hreturn : c = '\r'
    . simp [ofLine, hreturn]
    . simp [ofLine, hreturn]
  | cons d line =>
    -- The end of the line is the same with `c` in front of it.
    have hlast : (c :: d :: line).getLast? = (d :: line).getLast? := List.getLast?_cons_cons
    rw [ofLine, ofLine, hlast]
    split
    . simp
    . simp

namespace Text

/--
What is left of a line if a line feed follows: all but a carriage return at its end.
-/
def chop (line : List Char) : List Char :=
  (Row.ofLine line).chars

theorem chop_cases (line : List Char) :
    chop line = line ∧ line.getLast? ≠ some '\r' ∨ line = chop line ++ ['\r'] := by
  unfold chop Row.ofLine
  split
  next h => exact .inr (List.dropLast_append_getLast? '\r' h).symm
  next h => exact .inl ⟨rfl, h⟩

theorem prefix_chop (line : List Char) : chop line <+: line := by
  rcases chop_cases line with ⟨h, _⟩ | h
  . exact ⟨[], by rw [List.append_nil, h]⟩
  . exact ⟨['\r'], h.symm⟩

theorem mem_chop {line : List Char} {c : Char} (hc : c ≠ '\r') (h : c ∈ line) : c ∈ chop line := by
  rcases chop_cases line with ⟨hsame, _⟩ | hreturn
  . rwa [hsame]
  . rw [hreturn, List.mem_append, List.mem_singleton] at h
    exact h.resolve_right hc

theorem rows_newline {line : List Char} (h : '\n' ∉ line) (cs : List Char) :
    rows (line ++ '\n' :: cs) = Row.ofLine line :: rows cs := by
  induction line with
  | nil =>
    show Row.cons '\n' (rows cs) = _
    cases rows cs with
    | nil => rfl
    | cons row rest => rfl
  | cons c line ih =>
    rw [List.mem_cons, not_or] at h
    show Row.cons c (rows (line ++ '\n' :: cs)) = _
    rw [ih h.2, Row.cons_ofLine (Ne.symm h.1)]

theorem lines_newline {line : List Char} (h : '\n' ∉ line) (cs : List Char) :
    lines (line ++ '\n' :: cs) = chop line :: lines cs := by
  rw [lines, rows_newline h, List.map_cons]
  rfl

/--
A text is a line, or a line with a line feed and a text behind it.
-/
theorem lines.cases {motive : List Char → Prop}
    (line : ∀ line, '\n' ∉ line → motive line)
    (newline : ∀ line cs, '\n' ∉ line → motive cs → motive (line ++ '\n' :: cs))
    (cs : List Char) : motive cs := by
  by_cases h : '\n' ∈ cs
  . obtain ⟨front, rest, hcs, hfront⟩ := List.eq_append_cons_of_mem h
    rw [hcs]
    exact newline front rest hfront (lines.cases line newline rest)
  . exact line cs h
termination_by cs.length
decreasing_by
  simp [hcs]
  omega

end Text
end PddlOutline
