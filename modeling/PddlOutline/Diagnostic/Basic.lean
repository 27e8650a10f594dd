import PddlOutline.Document
import PddlOutline.ReadError

/-!
This module contains diagnostics: messages for users that may point at a part of a document.
-/

namespace PddlOutline

inductive Severity
  | error
  | warning
deriving Repr, DecidableEq

namespace Severity

def label : Severity → String
  | .error => "error"
  | .warning => "warning"

end Severity

structure Annotation where
  document : Document
  span : Span
  label : String
deriving Repr, DecidableEq

structure Diagnostic where
  severity : Severity
  title : String
  annotation : Option Annotation
deriving Repr, DecidableEq

namespace Diagnostic

def error (title : String) : Diagnostic :=
  ⟨.error, title, none⟩

def warning (title : String) : Diagnostic :=
  ⟨.warning, title, none⟩

def withTitle (title : String) (d : Diagnostic) : Diagnostic :=
  { d with title }

/--
Spans of fewer bytes are quoted in the title.
-/
def quoteLimit : Nat := 40

def invalid (document : Document) (span : Span) (message : String) : Diagnostic :=
  let quoted := if span.size < quoteLimit then document.fragment.slice? span else none
  let title := match quoted with
    | some part => message ++ ": " ++ part.text
    | none => message
  ⟨.error, title, some ⟨document, span, message⟩⟩

def kindTitle : ReadError → String
  | .missingSection .. => "Invalid PDDL: missing section"
  | .malformed .. => "Invalid PDDL: malformed structure"
  | .outOfRange _ => "Invalid PDDL: unreadable"

def ofError (document : Document) (e : ReadError) : Diagnostic :=
  let title := kindTitle e ++ ": " ++ e.message
  match e.span? with
  | some span => (invalid document span e.message).withTitle title
  | none => error title

end Diagnostic
end PddlOutline
