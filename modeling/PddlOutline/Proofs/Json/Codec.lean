import PddlOutline.Json.Catalog
import PddlOutline.Proofs.Json.Reader

/-!
This module contains the decoding of catalogs from the JSON they are written in. The members of an
object are taken in their order where it becomes a map, and are found by their names where it
becomes a record.
-/

namespace PddlOutline

/--
An encoding from which everything can be decoded.
-/
structure Codec (α : Type) where
  encode : α → Json
  decode? : Json → Option α
  decode?_encode : ∀ a, decode? (encode a) = some a

namespace Codec

variable {α : Type}

theorem mapM_map_eq_some {β : Type} {f : α → β} {g : β → Option α} (h : ∀ a, g (f a) = some a)
    (as : List α) : (as.map f).mapM g = some as := by
  have hgf : g ∘ f = fun a => pure (id a) := funext h
  rw [List.mapM_map, hgf, List.mapM_pure, List.map_id]
  rfl

def string : Codec String where
  encode := .str
  decode?
    | .str s => some s
    | _ => none
  decode?_encode _ := rfl

def strings : Codec (List String) where
  encode := Json.ofStrings
  decode?
    | .arr items => items.mapM string.decode?
    | _ => none
  decode?_encode := mapM_map_eq_some string.decode?_encode

/--
A map is decoded from an object whose members have different names.
-/
def nameMap (codec : Codec α) : Codec (NameMap α) where
  encode := Json.ofNameMap codec.encode
  decode?
    | .obj members => do
      let entries ← members.mapM fun (key, j) => (codec.decode? j).map fun a => (key, a)
      if h : (entries.map Prod.fst).Nodup then some ⟨entries, h⟩ else none
    | _ => none
  decode?_encode m := by
    have hentries : (m.entries.map fun (key, a) => (key, codec.encode a)).mapM
        (fun (key, j) => (codec.decode? j).map fun a => (key, a)) = some m.entries :=
      mapM_map_eq_some (by simp [codec.decode?_encode]) m.entries
    simp [Json.ofNameMap, hentries, m.nodup_keys]

def typedList : Codec TypedList where
  encode := Json.ofTypedList
  decode? j :=
    match j with
    | .arr _ => (strings.decode? j).map .flat
    | .obj _ => (strings.nameMap.decode? j).map .grouped
    | .str _ => none
  decode?_encode l := by
    cases l with
    | flat names =>
      exact congrArg (Option.map TypedList.flat) (strings.decode?_encode names)
    | grouped types =>
      exact congrArg (Option.map TypedList.grouped) (strings.nameMap.decode?_encode types)

/--
What is decoded from the member of an object that has the name `key`.
-/
def member? (codec : Codec α) (key : String) (members : List (String × Json)) : Option α :=
  (members.lookup key).bind codec.decode?

/-! What the members of a record are decoded to. -/

section Members

@[simp]
theorem decode?_str (s : String) : string.decode? (.str s) = some s := rfl

@[simp]
theorem decode?_ofStrings (names : List String) :
    strings.decode? (Json.ofStrings names) = some names :=
  strings.decode?_encode names

@[simp]
theorem decode?_ofTypedList (l : TypedList) : typedList.decode? (Json.ofTypedList l) = some l :=
  typedList.decode?_encode l

@[simp]
theorem member?_cons (codec : Codec α) (key key' : String) (j : Json)
    (members : List (String × Json)) :
    codec.member? key ((key', j) :: members)
      =
    if key = key' then codec.decode? j else codec.member? key members := by
  rw [member?, List.lookup_cons]
  split
  next h =>
    rw [if_pos (beq_iff_eq.mp h)]
    rfl
  next h =>
    rw [if_neg (by simpa using h)]
    rfl

end Members

def parameters : Codec Parameters where
  encode := Json.ofParameters
  decode?
    | .obj members => do
      let values ← strings.member? "values" members
      let types ← strings.member? "types" members
      return { values, types }
    | _ => none
  decode?_encode p := by simp [Json.ofParameters]

@[simp]
theorem decode?_ofParameters (p : Parameters) :
    parameters.decode? (Json.ofParameters p) = some p :=
  parameters.decode?_encode p

def action : Codec Action where
  encode := Json.ofAction
  decode?
    | .obj members => do
      let name ← string.member? "name" members
      let parameters ← parameters.member? "parameters" members
      let preconditions ← strings.member? "preconditions" members
      let effects ← strings.member? "effects" members
      return { name, parameters, preconditions, effects }
    | _ => none
  decode?_encode a := by simp [Json.ofAction]

def problem : Codec Problem where
  encode := Json.ofProblem
  decode?
    | .obj members => do
      let name ← string.member? "name" members
      let domainLink ← string.member? "domainLink" members
      let objects ← typedList.member? "objects" members
      let init ← strings.member? "init" members
      let goal ← strings.member? "goal" members
      return { name, domainLink, objects, init, goal }
    | _ => none
  decode?_encode p := by simp [Json.ofProblem]

@[simp]
theorem decode?_ofActions (m : NameMap Action) :
    action.nameMap.decode? (Json.ofNameMap Json.ofAction m) = some m :=
  action.nameMap.decode?_encode m

@[simp]
theorem decode?_ofProblems (m : NameMap Problem) :
    problem.nameMap.decode? (Json.ofNameMap Json.ofProblem m) = some m :=
  problem.nameMap.decode?_encode m

def domain : Codec Domain where
  encode := Json.ofDomain
  decode?
    | .obj members => do
      let name ← string.member? "name" members
      let requirements ← strings.member? "requirements" members
      let types ← typedList.member? "types" members
      let constants ← typedList.member? "constants" members
      let predicates ← strings.member? "predicates" members
      let actions ← action.nameMap.member? "actions" members
      let problems ← problem.nameMap.member? "problems" members
      return { name, requirements, types, constants, predicates, actions, problems }
    | _ => none
  decode?_encode d := by simp [Json.ofDomain]

def catalog : Codec Catalog where
  encode := Json.ofCatalog
  decode? j := (domain.nameMap.decode? j).map Catalog.mk
  decode?_encode c := congrArg (Option.map Catalog.mk) (domain.nameMap.decode?_encode c.domains)

end Codec

namespace Catalog

def ofJson? (text : String) : Option Catalog :=
  (Json.read? text.toList).bind Codec.catalog.decode?

theorem ofJson?_toJson (layout : Json.Layout) (c : Catalog) :
    ofJson? (c.toJson layout) = some c := by
  have hread : Json.read? (c.toJson layout).toList = some (Json.ofCatalog c) := by
    rw [toJson, Json.toText, String.toList_ofList, Json.read?_eq_some_iff]
    exact Json.isWritten_render layout 0 (Json.ofCatalog c)
  rw [ofJson?, hread, Option.bind_some]
  exact Codec.catalog.decode?_encode c

end Catalog

/--
A catalog is decoded from its JSON, whatever the layout, so different catalogs are never written
alike.
-/
theorem toJson_lossless (c : Catalog) :
    (∀ layout, Catalog.ofJson? (c.toJson layout) = some c)
      ∧ ∀ layout layout' c', c ≠ c' → c.toJson layout ≠ c'.toJson layout' := by
  constructor
  . intro layout
    exact Catalog.ofJson?_toJson layout c
  . intro layout layout' c' hne htext
    apply hne
    have hread := Catalog.ofJson?_toJson layout c
    rw [htext, Catalog.ofJson?_toJson] at hread
    exact (Option.some.inj hread).symm

theorem toJson_lossless_variants :
    let d (types : TypedList) : Domain := ⟨"d", [], types, .empty, [], .empty, .empty⟩
    let flat := Catalog.single (d (.flat []))
    let grouped := Catalog.single (d (.grouped .empty))
    let ab : Catalog := ⟨(NameMap.empty.insert "a" (d .empty)).insert "b" (d .empty)⟩
    let ba : Catalog := ⟨(NameMap.empty.insert "b" (d .empty)).insert "a" (d .empty)⟩
    Catalog.ofJson? (flat.toJson .pretty) = some flat
      ∧ flat.toJson .compact ≠ grouped.toJson .compact
      ∧ ab.toJson .compact ≠ ba.toJson .pretty := by
  intro d flat grouped ab ba
  have hvariant : flat ≠ grouped := by decide
  have horder : ab ≠ ba := by decide
  exact ⟨(toJson_lossless flat).1 .pretty, (toJson_lossless flat).2 _ _ grouped hvariant,
    (toJson_lossless ab).2 _ _ ba horder⟩

end PddlOutline
