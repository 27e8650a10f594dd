import PddlOutline.ReadError
import PddlOutline.Token

/-!
This module contains the parameters of an action. A type in the list of parameters applies to all
variables since the type before it, so `?x ?y - location ?z - car` gives `location` to the first
two variables and `car` to the third. Variables at the end of the list may have no type.
-/

namespace PddlOutline

/--
Variables and their types. The types belong to the variables that come first.
-/
structure Parameters where
  values : List String
  types : List String
deriving Repr, DecidableEq

namespace Parameters

def empty : Parameters :=
  ⟨[], []⟩

def size (p : Parameters) : Nat :=
  p.values.length

def isEmpty (p : Parameters) : Bool :=
  p.values.isEmpty

def typeOf? (p : Parameters) (index : Nat) : Option String :=
  p.types[index]?

def toList (p : Parameters) : List (String × Option String) :=
  p.values.mapIdx fun index value => (value, p.typeOf? index)

def consValue (value : String) (p : Parameters) : Parameters :=
  ⟨value :: p.values, p.types⟩

def consTypes (count : Nat) (type : String) (p : Parameters) : Parameters :=
  ⟨p.values, List.replicate count type ++ p.types⟩

/--
Read a list of parameters. While it is read, `untyped` is the number of variables that wait for a
type and `separator` is the `-` that waits for one.
-/
def ofTokens : List Token → Except ReadError Parameters :=
  go 0 none
where
  go (untyped : Nat) (separator : Option Token) : List Token → Except ReadError Parameters
    | [] =>
      match separator with
      | some separator => .error (.malformed .missingType separator.span)
      | none => .ok empty
    | token :: tokens =>
      if token.isSeparator then
        if separator.isSome then
          .error (.malformed .expectedType token.span)
        else
          go untyped (some token) tokens
      else if token.isVariable then
        if separator.isSome then
          .error (.malformed .expectedType token.span)
        else
          (go (untyped + 1) none tokens).map (consValue token.symbol)
      else if untyped = 0 then
        .error (.malformed .orphanType token.span)
      else
        (go 0 none tokens).map (consTypes untyped token.symbol)

def toText (p : Parameters) : String :=
  String.intercalate ", " (p.toList.map parameterText)
where
  parameterText : String × Option String → String
    | (value, some type) => value ++ ": " ++ type
    | (value, none) => value

end Parameters
end PddlOutline
