import PddlOutline.Text.Fragment
import PddlOutline.Text.Row

/-!
This module contains the recognition of the headers in which a domain and a problem give their
names. The letters of the keywords may be of either case. The header of a domain has to stand on
one line; in the header of a problem, any blank may be a line break.
-/

namespace PddlOutline
namespace Header

def word? (word : String) (cs : List Char) : Option (List Char) :=
  if Text.startsWith word.toList cs then some (cs.drop word.length) else none

def blanks? : List Char → Option (List Char)
  | [] => none
  | c :: cs => if Text.isBlank c then some (Text.trimStart cs) else none

/--
A character of a name in a header. Opening parentheses are among them.
-/
def isNameChar (c : Char) : Bool :=
  !Text.isBlank c && c != ')'

def name? (cs : List Char) : Option (List Char × List Char) :=
  match cs.takeWhile isNameChar with
  | [] => none
  | name => some (name, cs.dropWhile isNameChar)

def domainAt? (cs : List Char) : Option (List Char) := do
  let cs ← word? "(domain" cs
  let cs ← blanks? cs
  let (name, _) ← name? cs
  return name

def domainName? (cs : List Char) : Option (List Char) :=
  (Text.lines cs).findSome? (Text.firstMatch domainAt?)

def problemAt? (cs : List Char) : Option (List Char × List Char) := do
  let cs ← word? "(define" cs
  let cs ← word? "(problem" (Text.trimStart cs)
  let cs ← blanks? cs
  let (problem, cs) ← name? cs
  let cs ← word? ")" cs
  let cs ← word? "(:domain" (Text.trimStart cs)
  let cs ← blanks? cs
  let (domain, cs) ← name? cs
  let _ ← word? ")" cs
  return (problem, domain)

def problemNames? (cs : List Char) : Option (List Char × List Char) :=
  Text.firstMatch problemAt? (Text.collapse Text.isBlank cs)

end Header
end PddlOutline
