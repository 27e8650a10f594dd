import PddlOutline.Text.Shown

/-!
This module contains two forms of texts in which characters are written as escapes. In the quoted
form every character shows. The guarded form keeps all characters except those that a terminal
takes for commands.
-/

namespace PddlOutline
namespace Text

def codeEscape (c : Char) : List Char :=
  ['\\', 'u', '\x7b'] ++ Nat.toDigits 16 c.toNat ++ ['\x7d']

def quoteChar (c : Char) : List Char :=
  match c with
  | '"' => ['\\', '"']
  | '\\' => ['\\', '\\']
  | '\x00' => ['\\', '0']
  | '\t' => ['\\', 't']
  | '\n' => ['\\', 'n']
  | '\r' => ['\\', 'r']
  | c => if isShown c then [c] else codeEscape c

def quote (cs : List Char) : List Char :=
  '"' :: cs.flatMap quoteChar ++ ['"']

def quoteList (items : List (List Char)) : List Char :=
  '[' :: List.intercalate [',', ' '] (items.map quote) ++ [']']

def guardChar (c : Char) : List Char :=
  match c with
  | '\x07' => ['\\', 'x', '0', '7']
  | '\x08' => ['\\', 'x', '0', '8']
  | '\x0c' => ['\\', 'x', '0', 'c']
  | '\x1b' => ['\\', 'x', '1', 'b']
  | '\x7f' => ['\\', 'x', '7', 'f']
  | c => if 0x80 ≤ c.toNat && c.toNat ≤ 0x9F then codeEscape c else [c]

def guarded (cs : List Char) : List Char :=
  cs.flatMap guardChar

end Text
end PddlOutline
