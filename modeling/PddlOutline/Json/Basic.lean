/-!
This module contains the part of JSON that catalogs are written in, strings, arrays and objects
whose members have an order, and the two layouts they are printed in.
-/

namespace PddlOutline

inductive Json
  | str (s : String)
  | arr (items : List Json)
  | obj (members : List (String × Json))
deriving Repr

namespace Json

def hexDigit (n : Nat) : Char :=
  if n < 10 then Char.ofNat (48 + n) else Char.ofNat (87 + n)

def escape (c : Char) : List Char :=
  match c with
  | '"' => ['\\', '"']
  | '\\' => ['\\', '\\']
  | '\x08' => ['\\', 'b']
  | '\t' => ['\\', 't']
  | '\n' => ['\\', 'n']
  | '\x0c' => ['\\', 'f']
  | '\r' => ['\\', 'r']
  | c =>
    if c.toNat < 0x20 then
      ['\\', 'u', '0', '0', hexDigit (c.toNat / 16), hexDigit (c.toNat % 16)]
    else
      [c]

def quote (s : String) : List Char :=
  '"' :: s.toList.flatMap escape ++ ['"']

inductive Layout
  /-- Everything on one line, without spaces. -/
  | compact
  /-- One element per line, each level indented by two spaces. -/
  | pretty
deriving Repr, DecidableEq

namespace Layout

def newline : Layout → Nat → List Char
  | .compact, _ => []
  | .pretty, depth => '\n' :: List.replicate (2 * depth) ' '

def colon : Layout → List Char
  | .compact => [':']
  | .pretty => [':', ' ']

end Layout

mutual

def render (layout : Layout) (depth : Nat) : Json → List Char
  | .str s => quote s
  | .arr [] => ['[', ']']
  | .arr (item :: items) =>
    '[' :: layout.newline (depth + 1) ++ render layout (depth + 1) item
      ++ renderItems layout (depth + 1) items ++ layout.newline depth ++ [']']
  | .obj [] => ['\x7b', '\x7d']
  | .obj ((key, value) :: members) =>
    '\x7b' :: layout.newline (depth + 1) ++ quote key ++ layout.colon
      ++ render layout (depth + 1) value ++ renderMembers layout (depth + 1) members
      ++ layout.newline depth ++ ['\x7d']

def renderItems (layout : Layout) (depth : Nat) : List Json → List Char
  | [] => []
  | item :: items =>
    ',' :: layout.newline depth ++ render layout depth item ++ renderItems layout depth items

def renderMembers (layout : Layout) (depth : Nat) : List (String × Json) → List Char
  | [] => []
  | (key, value) :: members =>
    ',' :: layout.newline depth ++ quote key ++ layout.colon ++ render layout depth value
      ++ renderMembers layout depth members

end

def toText (layout : Layout) (j : Json) : String :=
  String.ofList (j.render layout 0)

end Json
end PddlOutline
