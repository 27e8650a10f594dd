import PddlOutline.Proofs.Layout.Action
import PddlOutline.Proofs.Layout.Header
import PddlOutline.Reading.Problem

/-!
This module contains the printed form of problems, from which they are read back.
-/

namespace PddlOutline

inductive ProblemPart
  | objects (l : TypedWords)
  /-- The first expression must not be `()` or `(and ...)`, which is read as what it holds. -/
  | init (es : List Expression) (isFlat : ∀ e ∈ es.head?, ¬ Text.allBlank e.tree.chars
    ∧ ¬ Text.sameLetters e.tree.head "and".toList)
  | goal (es : List Expression)

namespace ProblemPart

def block : ProblemPart → Block
  | objects l => ⟨.objects, rfl, l.words.map .word⟩
  | init es _ => ⟨.init, rfl, es.map .ofExpression⟩
  | goal es => ⟨.goal, rfl, [.conjunction es]⟩

def objects? : ProblemPart → Option TypedList
  | objects l => some l.list
  | _ => none

def init? : ProblemPart → Option (List String)
  | init es _ => some (es.map Expression.text)
  | _ => none

def goal? : ProblemPart → Option (List String)
  | goal es => some (es.map Expression.text)
  | _ => none

end ProblemPart

/--
A problem as it is printed on a single line, with its parts in any order. If there are several
sections with the same keyword, the first one counts.
-/
structure ProblemLayout where
  name : Word
  domain : Word
  parts : List ProblemPart

namespace ProblemLayout

def opening : List Char :=
  "(define (problem".toList

def domainOpening : List Char :=
  " (:domain".toList

/--
The printed form `(define (problem NAME) (:domain NAME) PART ... PART)`.
-/
def chars (l : ProblemLayout) : List Char :=
  opening ++ ' ' :: (l.name.chars ++ ')' :: (domainOpening ++ ' ' :: (l.domain.chars
    ++ ')' :: (l.parts.flatMap (' ' :: ·.block.chars) ++ [')']))))

def text (l : ProblemLayout) : String :=
  String.ofList l.chars

def problem (l : ProblemLayout) : Problem where
  name := l.name.text
  domainLink := l.domain.text
  objects := (l.parts.findSome? ProblemPart.objects?).getD .empty
  init := (l.parts.findSome? ProblemPart.init?).getD []
  goal := (l.parts.findSome? ProblemPart.goal?).getD []

def layout (l : ProblemLayout) : Layout where
  header := opening ++ ((' ' :: l.name.chars ++ [')'])
    ++ (domainOpening ++ (' ' :: l.domain.chars ++ [')'])))
  isLine := by
    have hopening : Text.IsLine opening ∧ Text.IsLine domainOpening := by decide
    refine hopening.1.append (.append ?_ (hopening.2.append ?_))
    . exact (Item.word l.name).isLine_space.append (by decide)
    . exact (Item.word l.domain).isLine_space.append (by decide)
  isBare := by
    intro k hk offset
    have hopening : (∀ offset, Text.occurrences k.chars offset opening = [])
        ∧ ∀ offset, Text.occurrences k.chars offset domainOpening = [] := by
      cases k <;> exact ⟨fun offset => rfl, fun offset => rfl⟩
    have hword : ∀ (w : Word) (offset : Nat),
        Text.occurrences k.chars offset (' ' :: w.chars ++ [')']) = [] := by
      intro w
      apply Keyword.occurrences_eq_nil
      exact .inr ⟨hk, by simpa using w.not_mem_opening⟩
    have hnext : ∀ rest : List Char, ∀ b ∈ (domainOpening ++ rest).head?, b = ' ' ∨ b = ')' := by
      intro rest b hb
      have hspace : (domainOpening ++ rest).head? = some ' ' := rfl
      rw [hspace, Option.mem_some] at hb
      exact .inl hb.symm
    rw [Keyword.occurrences_append k (by simp), hopening.1,
      Keyword.occurrences_append k (hnext _), hword, Keyword.occurrences_append k (by simp),
      hopening.2, hword]
    rfl
  blocks := l.parts.map ProblemPart.block

theorem chars_layout (l : ProblemLayout) : l.layout.chars = l.chars := by
  simp only [Layout.chars, layout, Layout.body, chars, List.flatMap_map, List.append_assoc,
    List.cons_append, List.nil_append]

theorem chars_ofString (l : ProblemLayout) :
    (Document.ofString l.text).chars = l.layout.chars := by
  rw [Document.ofString_chars, text, String.toList_ofList, ← chars_layout, l.layout.normalize_chars]

theorem problemNames?_chars (l : ProblemLayout) :
    Header.problemNames? l.layout.chars = some (l.name.chars, l.domain.chars) := by
  rw [chars_layout]
  exact Header.problemNames?_line l.name l.domain _

theorem readObjects_eq (l : ProblemLayout) :
    Problem.readObjects (Fragment.whole l.layout.chars)
      =
    .ok ((l.parts.findSome? ProblemPart.objects?).getD .empty) := by
  apply Layout.readD_eq rfl rfl
  intro p
  cases p with
  | objects words =>
    refine ⟨rfl, ?_⟩
    intro s hs hholds
    exact hholds.typedList_of_words hs words rfl
  | _ => exact nofun

theorem readInit_eq (l : ProblemLayout) :
    Problem.readExpressions (Fragment.whole l.layout.chars) .init
      =
    .ok ((l.parts.findSome? ProblemPart.init?).getD []) := by
  apply Layout.readD_eq rfl rfl
  intro p
  cases p with
  | init es isFlat =>
    refine ⟨rfl, ?_⟩
    intro s hs hholds
    exact hholds.expressions_of_expressions hs rfl isFlat
  | _ => exact nofun

theorem readGoal_eq (l : ProblemLayout) :
    Problem.readExpressions (Fragment.whole l.layout.chars) .goal
      =
    .ok ((l.parts.findSome? ProblemPart.goal?).getD []) := by
  apply Layout.readD_eq rfl rfl
  intro p
  cases p with
  | goal es =>
    refine ⟨rfl, ?_⟩
    intro s hs hholds
    exact hholds.expressions_of_conjunction hs rfl
  | _ => exact nofun

/--
Reading a problem undoes printing it.
-/
theorem read_problem_text (l : ProblemLayout) :
    (Problem.read (Document.ofString l.text)).outcome = .ok l.problem := by
  have hfragment : (Document.ofString l.text).fragment = Fragment.whole l.layout.chars := by
    rw [Document.fragment, chars_ofString]
  have hnames : Problem.readNames l.layout.chars = pure (l.name.text, l.domain.text) := by
    rw [Problem.readNames, problemNames?_chars]
    rfl
  unfold Problem.read
  simp only [Traced.outcome_bind, Traced.outcome_ofExcept, Traced.outcome_pure, hfragment,
    chars_ofString]
  rw [hnames, l.readObjects_eq, l.readInit_eq, l.readGoal_eq]
  rfl

example : ProblemLayout.text ⟨⟨['n'], by decide, by decide⟩, ⟨['d'], by decide, by decide⟩, [
      .goal [⟨.prepend ['p'] (by decide) .nil, by decide, by decide⟩],
      .init [⟨.prepend ['q'] (by decide) .nil, by decide, by decide⟩] (by decide)]⟩
    = "(define (problem n) (:domain d) (:goal (and (p))) (:init (q)))" := by
  decide +kernel

end ProblemLayout
end PddlOutline
