import PddlOutline.Text.Fragment

/-!
This module contains the tokens that typed lists and parameter lists are made of.
-/

namespace PddlOutline

structure Token where
  symbol : String
  span : Option Span
deriving Repr, DecidableEq

namespace Token

def ofString (symbol : String) : Token :=
  ⟨symbol, none⟩

def ofFragment (f : Fragment) : Token :=
  ⟨f.text, some f.span⟩

/--
Tokens are alike if they have the same symbol, wherever they stand.
-/
def alike (a b : Token) : Bool :=
  a.symbol == b.symbol

def distinct (tokens : List Token) : List Token :=
  tokens.eraseDupsBy alike

def isSeparator (t : Token) : Bool :=
  t.symbol == "-"

def isVariable (t : Token) : Bool :=
  t.symbol.toList.head? == some '?'

end Token

def Fragment.tokens (f : Fragment) : List Token :=
  f.runs.map Token.ofFragment

end PddlOutline
