import PddlOutline.Text.Display
import PddlOutline.Text.Fragment
import PddlOutline.Text.Row

/-!
This module contains positions in a text as they are shown to readers: the row of an offset and its
column on the row.
-/

namespace PddlOutline

/--
A place in a text: its row, counted from 0, the characters before it on the row, and whether it is
`beyond` the end of the row, that is behind a part of the line break.
-/
structure Position where
  row : Nat
  before : List Char
  beyond : Bool
deriving Repr, DecidableEq

namespace Position

/--
The number of characters before a place.
-/
def column (p : Position) : Nat :=
  p.before.length + p.beyond.toNat

/--
Whether nothing of the row comes before a place.
-/
def isRowStart (p : Position) : Bool :=
  p.before.isEmpty && !p.beyond

end Position

namespace Row

def position? (row : Row) (index offset : Nat) : Option Position :=
  let size := Text.byteSize row.chars
  (Text.takeBytes? row.chars (min offset size)).map (⟨index, ·, size < offset⟩)

end Row

namespace Text

/--
The place of a byte offset, where `index` is the number of the first row. The last row has all
offsets behind it.
-/
def position? (index : Nat) (rows : List Row) (offset : Nat) : Option Position :=
  match rows with
  | [] => none
  | [row] => row.position? index offset
  | row :: next :: rest =>
    if offset < byteSize row.whole then
      row.position? index offset
    else
      position? (index + 1) (next :: rest) (offset - byteSize row.whole)

end Text
end PddlOutline
