import PddlOutline.ReadError
import PddlOutline.NameMap
import PddlOutline.Token

/-!
This module contains typed lists such as `truck car - vehicle plane - aircraft`, which stand in the
types and constants of a domain and in the objects of a problem. Names that are followed by no type
have the type `object`, unless the list gives no type at all.
-/

namespace PddlOutline

/--
Names that share a type, which is absent only for names at the end of a list.
-/
structure TypedGroup where
  names : List Token
  type : Option Token
deriving Repr, DecidableEq

namespace TypedGroup

def consName (name : Token) : List TypedGroup → List TypedGroup
  | [] => [⟨[name], none⟩]
  | ⟨names, type⟩ :: groups => ⟨name :: names, type⟩ :: groups

/--
Split a list of tokens into groups of the form `name1 name2 ... - type`. Every `-` has to be
followed by a type.
-/
def ofTokens : List Token → Except ReadError (List TypedGroup)
  | [] => .ok []
  | token :: tokens =>
    if token.isSeparator then
      match tokens with
      | [] => .error (.malformed .missingType token.span)
      | type :: tokens =>
        if type.isSeparator then
          .error (.malformed .expectedType type.span)
        else
          (ofTokens tokens).map (⟨[], some type⟩ :: ·)
    else
      (ofTokens tokens).map (consName token)

end TypedGroup

/--
A list of names, either without any type or sorted into its types in the order in which these came
first.
-/
inductive TypedList
  | flat (names : List String)
  | grouped (types : NameMap (List String))
deriving Repr, DecidableEq

namespace TypedList

def defaultType : String := "object"

def empty : TypedList :=
  .flat []

def names : TypedList → List String
  | .flat names => names
  | .grouped types => types.values.flatten

def size (l : TypedList) : Nat :=
  l.names.length

def isEmpty (l : TypedList) : Bool :=
  l.names.isEmpty

def isGrouped : TypedList → Bool
  | .flat _ => false
  | .grouped _ => true

def ofType? : TypedList → String → Option (List String)
  | .flat _, _ => none
  | .grouped types, type => types.get? type

def addGroup (types : NameMap (List String)) (group : TypedGroup) : NameMap (List String) :=
  let type := (group.type.map Token.symbol).getD defaultType
  types.alter type fun names => names.getD [] ++ group.names.map Token.symbol

def ofTokens (tokens : List Token) : Except ReadError TypedList :=
  if tokens.any Token.isSeparator then
    (TypedGroup.ofTokens tokens).map fun groups => .grouped (groups.foldl addGroup .empty)
  else
    .ok (.flat (tokens.map Token.symbol))

def bucketText (bucket : String × List String) : String :=
  String.intercalate " " bucket.2 ++ " - " ++ bucket.1

def toText : TypedList → String
  | .flat names => String.intercalate " " names
  | .grouped types => String.intercalate "  " (types.entries.map bucketText)

end TypedList
end PddlOutline
