import PddlOutline.Json.Basic
import PddlOutline.Model.Catalog

/-!
This module contains the JSON form of catalogs. Maps become objects, whose members keep the order
of the map; a typed list becomes an array if it is flat and an object if it is grouped.
-/

namespace PddlOutline
namespace Json

def ofStrings (items : List String) : Json :=
  .arr (items.map .str)

def ofNameMap {α : Type} (f : α → Json) (m : NameMap α) : Json :=
  .obj (m.entries.map fun (key, a) => (key, f a))

def ofTypedList : TypedList → Json
  | .flat names => ofStrings names
  | .grouped types => ofNameMap ofStrings types

def ofParameters (p : Parameters) : Json :=
  .obj [("values", ofStrings p.values), ("types", ofStrings p.types)]

def ofAction (a : Action) : Json :=
  .obj [("name", .str a.name), ("parameters", ofParameters a.parameters),
    ("preconditions", ofStrings a.preconditions), ("effects", ofStrings a.effects)]

def ofProblem (p : Problem) : Json :=
  .obj [("name", .str p.name), ("domainLink", .str p.domainLink),
    ("objects", ofTypedList p.objects), ("init", ofStrings p.init), ("goal", ofStrings p.goal)]

def ofDomain (d : Domain) : Json :=
  .obj [("name", .str d.name), ("requirements", ofStrings d.requirements),
    ("types", ofTypedList d.types), ("constants", ofTypedList d.constants),
    ("predicates", ofStrings d.predicates), ("actions", ofNameMap ofAction d.actions),
    ("problems", ofNameMap ofProblem d.problems)]

def ofCatalog (c : Catalog) : Json :=
  ofNameMap ofDomain c.domains

end Json

def Catalog.toJson (layout : Json.Layout) (c : Catalog) : String :=
  (Json.ofCatalog c).toText layout

end PddlOutline
