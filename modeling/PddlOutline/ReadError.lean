import PddlOutline.Keyword
import PddlOutline.Text.Fragment

/-!
This module contains the reasons for which a document cannot be read and their wording. Most of
them come with the span of the normalized text that they are about.
-/

namespace PddlOutline

inductive Reason
  | unopened
  | unclosed
  | missingValue (keyword : Keyword)
  | missingActionName
  | missingType
  | expectedType
  | orphanType
deriving Repr, DecidableEq

namespace Reason

def message : Reason → String
  | .unopened => "closing parenthesis without a matching opening one"
  | .unclosed => "unclosed parenthesis"
  | .missingValue keyword => "expected a parenthesized expression after `" ++ keyword.text ++ "`"
  | .missingActionName => "missing action name"
  | .missingType => "missing type name after `-`"
  | .expectedType => "expected a type name after `-`"
  | .orphanType => "type does not apply to any parameter"

end Reason

inductive ReadError
  | missingSection (keyword : Keyword) (span : Option Span)
  | malformed (reason : Reason) (span : Option Span)
  /-- A span that was to be cut out is no part of the text. -/
  | outOfRange (span : Span)
deriving Repr, DecidableEq

namespace ReadError

def message : ReadError → String
  | .missingSection keyword _ => "missing `" ++ keyword.text ++ "` section"
  | .malformed reason _ => reason.message
  | .outOfRange _ => "span outside of the text"

def span? : ReadError → Option Span
  | .missingSection _ span => span
  | .malformed _ span => span
  | .outOfRange span => some span

def isMissing : ReadError → Bool
  | .missingSection .. => true
  | _ => false

def isMalformed : ReadError → Bool
  | .malformed .. => true
  | _ => false

end ReadError

def Fragment.slice (f : Fragment) (span : Span) : Except ReadError Fragment :=
  match f.slice? span with
  | some part => .ok part
  | none => .error (.outOfRange span)

theorem Fragment.slice_eq_ok_iff {f g : Fragment} {span : Span} :
    f.slice span = .ok g ↔ f.slice? span = some g := by
  unfold slice
  split <;> simp_all

end PddlOutline
