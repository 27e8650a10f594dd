import PddlOutline.Text.Basic

/-!
This module contains the rows of a text. A row ends with a line feed, or with a carriage return and
a line feed; a carriage return without a line feed is a character like any other.
-/

namespace PddlOutline

/--
The characters of a row and the line break behind them, which is empty at the end of a text.
-/
structure Row where
  chars : List Char
  ending : List Char
deriving Repr, DecidableEq

namespace Row

def whole (r : Row) : List Char :=
  r.chars ++ r.ending

/--
The rows of a text that starts with `c`, from the rows of what follows.
-/
def cons (c : Char) (rows : List Row) : List Row :=
  match rows with
  | [] => if c = '\n' then [⟨[], ['\n']⟩] else [⟨[c], []⟩]
  | row :: rest =>
    if c = '\n' then
      ⟨[], ['\n']⟩ :: row :: rest
    else if c = '\r' ∧ row = ⟨[], ['\n']⟩ then
      ⟨[], ['\r', '\n']⟩ :: rest
    else
      ⟨c :: row.chars, row.ending⟩ :: rest

end Row

namespace Text

def rows (cs : List Char) : List Row :=
  cs.foldr Row.cons []

/--
The lines of a text: its rows without their line breaks.
-/
def lines (cs : List Char) : List (List Char) :=
  (rows cs).map Row.chars

end Text
end PddlOutline
