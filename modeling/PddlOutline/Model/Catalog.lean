import PddlOutline.Model.Domain

/-!
This module contains catalogs, the outcome of reading: domains by name, each with its problems.
-/

namespace PddlOutline

structure Catalog where
  domains : NameMap Domain
deriving Repr, DecidableEq

namespace Catalog

def single (d : Domain) : Catalog :=
  ⟨NameMap.empty.insert d.name d⟩

def names (c : Catalog) : List String :=
  c.domains.keys

def size (c : Catalog) : Nat :=
  c.domains.size

def isEmpty (c : Catalog) : Bool :=
  c.domains.isEmpty

def get? (c : Catalog) (name : String) : Option Domain :=
  c.domains.get? name

def toText (c : Catalog) : String :=
  String.intercalate "\n\n" (c.domains.values.flatMap fun d =>
    d.toText :: d.problems.values.map Problem.toText)

end Catalog
end PddlOutline
