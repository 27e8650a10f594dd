import PddlOutline.Proofs.Layout.Action
import PddlOutline.Proofs.Layout.Header
import PddlOutline.Proofs.Success

/-!
This module contains the printed form of domains, from which they are read back.
-/

namespace PddlOutline

inductive DomainPart
  | requirements (words : List Word)
  | types (l : TypedWords)
  | constants (l : TypedWords)
  | predicates (es : List Expression)
  | action (a : ActionLayout)

namespace DomainPart

def block : DomainPart → Block
  | requirements words => ⟨.requirements, rfl, words.map .word⟩
  | types l => ⟨.types, rfl, l.words.map .word⟩
  | constants l => ⟨.constants, rfl, l.words.map .word⟩
  | predicates es => ⟨.predicates, rfl, es.map .ofExpression⟩
  | action a => a.block

def requirements? : DomainPart → Option (List String)
  | requirements words => some (words.map Word.text)
  | _ => none

def types? : DomainPart → Option TypedList
  | types l => some l.list
  | _ => none

def constants? : DomainPart → Option TypedList
  | constants l => some l.list
  | _ => none

def predicates? : DomainPart → Option (List String)
  | predicates es => some (es.map Expression.text)
  | _ => none

def action? : DomainPart → Option ActionLayout
  | action a => some a
  | _ => none

end DomainPart

/--
A domain as it is printed on a single line, with its parts in any order. If there are several
sections with the same keyword, the first one counts.
-/
structure DomainLayout where
  name : Word
  parts : List DomainPart

namespace DomainLayout

def opening : List Char :=
  "(define (domain".toList

/--
The printed form `(define (domain NAME) PART ... PART)`.
-/
def chars (l : DomainLayout) : List Char :=
  opening ++ ' ' :: (l.name.chars ++ ')' :: (l.parts.flatMap (' ' :: ·.block.chars) ++ [')']))

def actions (l : DomainLayout) : List Action :=
  (l.parts.filterMap DomainPart.action?).map ActionLayout.action

def domain (l : DomainLayout) : Domain where
  name := l.name.text
  requirements := (l.parts.findSome? DomainPart.requirements?).getD []
  types := (l.parts.findSome? DomainPart.types?).getD .empty
  constants := (l.parts.findSome? DomainPart.constants?).getD .empty
  predicates := (l.parts.findSome? DomainPart.predicates?).getD []
  actions := Domain.indexActions l.actions
  problems := .empty

def layout (l : DomainLayout) : Layout where
  header := opening ++ ((' ' :: l.name.chars) ++ [')'])
  isLine := by
    have hopening : Text.IsLine opening := by decide
    exact hopening.append ((Item.word l.name).isLine_space.append (by decide))
  isBare := by
    intro k hk offset
    have hopening : ∀ offset, Text.occurrences k.chars offset opening = [] := by
      cases k <;> intro offset <;> rfl
    have hname : '(' ∉ (' ' :: l.name.chars) ++ [')'] := by
      simpa using l.name.not_mem_opening
    rw [Keyword.occurrences_append k (by simp), hopening,
      Keyword.occurrences_eq_nil (.inr ⟨hk, hname⟩), List.append_nil]
  blocks := l.parts.map DomainPart.block

theorem chars_layout (l : DomainLayout) : l.layout.chars = l.chars := by
  simp only [Layout.chars, layout, Layout.body, chars, List.flatMap_map, List.append_assoc,
    List.cons_append, List.nil_append]

def text (l : DomainLayout) : String :=
  String.ofList l.chars

theorem chars_ofString (l : DomainLayout) : (Document.ofString l.text).chars = l.layout.chars := by
  rw [Document.ofString_chars, text, String.toList_ofList, ← chars_layout, l.layout.normalize_chars]

theorem domainName?_chars (l : DomainLayout) :
    Header.domainName? l.layout.chars = some l.name.chars := by
  have hnewline : '\n' ∉ l.layout.chars := by
    intro hnewline
    exact ((l.layout.isLine.append (Layout.isLine_body l.layout.blocks)).2 _ hnewline).2 rfl
  rw [chars_layout] at hnewline ⊢
  exact Header.domainName?_line hnewline

theorem readRequirements_eq (l : DomainLayout) :
    Domain.readRequirements (Fragment.whole l.layout.chars)
      =
    .ok ((l.parts.findSome? DomainPart.requirements?).getD []) := by
  apply Layout.readD_eq rfl rfl
  intro p
  cases p with
  | requirements words =>
    refine ⟨rfl, ?_⟩
    intro s hs hholds
    exact hholds.symbols_of_words hs rfl
  | _ => exact nofun

theorem readTypes_eq (l : DomainLayout) :
    Domain.readTypedList (Fragment.whole l.layout.chars) .types
      =
    .ok ((l.parts.findSome? DomainPart.types?).getD .empty) := by
  apply Layout.readD_eq rfl rfl
  intro p
  cases p with
  | types words =>
    refine ⟨rfl, ?_⟩
    intro s hs hholds
    exact hholds.typedList_of_words hs words rfl
  | _ => exact nofun

theorem readConstants_eq (l : DomainLayout) :
    Domain.readTypedList (Fragment.whole l.layout.chars) .constants
      =
    .ok ((l.parts.findSome? DomainPart.constants?).getD .empty) := by
  apply Layout.readD_eq rfl rfl
  intro p
  cases p with
  | constants words =>
    refine ⟨rfl, ?_⟩
    intro s hs hholds
    exact hholds.typedList_of_words hs words rfl
  | _ => exact nofun

theorem readPredicates_eq (l : DomainLayout) :
    Domain.readPredicates (Fragment.whole l.layout.chars)
      =
    .ok ((l.parts.findSome? DomainPart.predicates?).getD []) := by
  apply Layout.readD_eq rfl rfl
  intro p
  cases p with
  | predicates es =>
    refine ⟨rfl, ?_⟩
    intro s _ hholds
    exact hholds.parts_of_expressions rfl
  | _ => exact nofun

theorem filter_action (parts : List DomainPart) :
    ((parts.map DomainPart.block).filter (·.keyword = .action)).map Block.inside
      =
    (parts.filterMap DomainPart.action?).map (·.block.inside) := by
  induction parts with
  | nil => rfl
  | cons p parts ih =>
    cases p with
    | action a => exact congrArg (a.block.inside :: ·) ih
    | _ => exact ih

theorem readActions_eq (l : DomainLayout) :
    (Domain.readActions (Fragment.whole l.layout.chars)
      ((Fragment.whole l.layout.chars).places .action)).outcome = .ok l.actions := by
  have hgroups := l.layout.forall₂_groupAt (k := .action) rfl
  rw [show l.layout.blocks = l.parts.map DomainPart.block from rfl, filter_action,
    List.forall₂_map_right_iff] at hgroups
  rw [Domain.readActions_eq_ok, actions, List.forall₂_map_right_iff]
  refine hgroups.imp ?_
  intro offset a hgroup
  rw [Action.read_of_groupAt hgroup, a.block.enclosed_inside]
  exact a.ofFragment_eq offset

/--
Reading a domain undoes printing it. The last definition of an action counts, at the place of the
first.
-/
theorem read_domain_text (l : DomainLayout) :
    (Domain.read (Document.ofString l.text)).outcome = .ok l.domain
      ∧ l.domain.actions.keys = (l.actions.map Action.name).eraseDups
      ∧ ∀ name, l.domain.actions.get? name = l.actions.reverse.find? (·.name = name) := by
  refine ⟨?_, Domain.keys_indexActions l.actions, Domain.get?_indexActions l.actions⟩
  have hfragment : (Document.ofString l.text).fragment = Fragment.whole l.layout.chars := by
    rw [Document.fragment, chars_ofString]
  have hname : Domain.readName l.layout.chars = pure l.name.text := by
    rw [Domain.readName, domainName?_chars]
    rfl
  have hactions := l.readActions_eq
  unfold Fragment.places at hactions
  unfold Domain.read
  simp only [Traced.outcome_bind, Traced.outcome_ofExcept, Traced.outcome_pure, hfragment,
    chars_ofString]
  rw [hname, l.readRequirements_eq, l.readTypes_eq, l.readConstants_eq, l.readPredicates_eq,
    hactions]
  rfl

example : DomainLayout.text ⟨⟨['d'], by decide, by decide⟩, [
      .action ⟨⟨['m'], by decide, by decide⟩, [⟨['?', 'x'], by decide, by decide⟩], by decide,
        ⟨["?x"], []⟩, rfl, [], [⟨.prepend ['p'] (by decide) .nil, by decide, by decide⟩]⟩,
      .types ⟨[⟨['a'], by decide, by decide⟩], .flat ["a"], rfl⟩]⟩
    = "(define (domain d) (:action m :parameters (?x) :precondition (and) :effect (and (p)))"
      ++ " (:types a))" := by
  decide +kernel

end DomainLayout
end PddlOutline
