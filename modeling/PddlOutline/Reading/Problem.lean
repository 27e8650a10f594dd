import PddlOutline.Document
import PddlOutline.Header
import PddlOutline.Log.Traced
import PddlOutline.Reading.Section

/-!
This module contains the reading of a problem. Sections that are absent are read as empty; a
problem without a header gets default names.
-/

namespace PddlOutline
namespace Problem

def readNames (chars : List Char) : Traced ReadError (String × String) :=
  match Header.problemNames? chars with
  | some (name, domain) => pure (String.ofList name, String.ofList domain)
  | none => do
    Traced.emit .problemUnnamed
    return (unknownName, Domain.unknownName)

def readObjects (f : Fragment) : Except ReadError TypedList :=
  Section.readD f .objects .empty Section.typedList

def readExpressions (f : Fragment) (keyword : Keyword) : Except ReadError (List String) :=
  Section.readD f keyword [] Section.expressions

def read (d : Document) : Traced ReadError Problem := do
  let f := d.fragment
  let (name, domainLink) ← readNames d.chars
  let objects ← Traced.ofExcept (readObjects f)
  let init ← Traced.ofExcept (readExpressions f .init)
  let goal ← Traced.ofExcept (readExpressions f .goal)
  return { name, domainLink, objects, init, goal }

end Problem
end PddlOutline
