import PddlOutline.Proofs.Section
import PddlOutline.Reading.Action

/-!
This module contains the reading of an action in three parts, one for each keyword that an action
needs.
-/

namespace PddlOutline
namespace Action

def parametersOf (body : Fragment) : Except ReadError Parameters := do
  let found ← needed body .parameters
  found.tokens >>= Parameters.ofTokens

def expressionsOf (body : Fragment) (k : Keyword) : Except ReadError (List String) := do
  let found ← needed body k
  found.expressions

theorem ofFragment_of_name_none (body : Fragment) (h : name? body.chars = none) :
    ofFragment body = .error (.malformed .missingActionName
      (some ⟨body.start, body.start + Keyword.action.size⟩)) := by
  rw [ofFragment, h]
  rfl

theorem ofFragment_of_name (body : Fragment) {name : List Char}
    (h : name? body.chars = some name) :
    ofFragment body = do
      let parameters ← parametersOf body
      let preconditions ← expressionsOf body .precondition
      let effects ← expressionsOf body .effect
      return ⟨String.ofList name, parameters, preconditions, effects⟩ := by
  rw [ofFragment, h]
  simp only [parametersOf, expressionsOf, bind_assoc]

theorem read_of_groupAt {f : Fragment} {offset : Nat} {t : Forest} (h : f.GroupAt offset t) :
    read f offset = ofFragment ⟨offset, t.enclosed⟩ := by
  have hdelimit : Section.delimit f .action offset = .ok (t.nesting offset) :=
    Section.delimit_of_groupAt h
  obtain ⟨front, rest, hchars, rfl⟩ := h
  rw [read, hdelimit]
  show (f.slice (t.nesting _).outer.span >>= ofFragment) = _
  rw [Fragment.slice_of_enclosed hchars]
  rfl

theorem read_of_forall_not_groupAt {f : Fragment} {offset : Nat} (ho : offset ∈ f.places .action)
    (h : ∀ t, ¬ f.GroupAt offset t) :
    read f offset = .error (.malformed .unclosed (some ⟨offset, offset + 1⟩)) := by
  rw [read, Section.delimit_of_forall_not_groupAt rfl ho h]
  rfl

theorem needed_of_none {body : Fragment} {k : Keyword} (h : Section.first body k = .ok none) :
    needed body k = .error (.missingSection k (some body.span)) := by
  rw [needed, h]
  rfl

theorem needed_of_some {body : Fragment} {k : Keyword} {s : Section}
    (h : Section.first body k = .ok (some s)) : needed body k = .ok s := by
  rw [needed, h]
  rfl

theorem needed_of_error {body : Fragment} {k : Keyword} {e : ReadError}
    (h : Section.first body k = .error e) : needed body k = .error e := by
  rw [needed, h]
  rfl

end Action
end PddlOutline
