import PddlOutline.Header
import PddlOutline.Proofs.Layout.Items

/-!
This module contains the recognition of printed headers.
-/

namespace PddlOutline

theorem Text.firstMatch_of_eq_some {α : Type} {f : List Char → Option α} {cs : List Char} {a : α}
    (h : f cs = some a) : firstMatch f cs = some a := by
  cases cs with
  | nil => exact h
  | cons c cs => rw [firstMatch, h]

namespace Header

theorem blanks?_word (w : Word) (rest : List Char) :
    blanks? (' ' :: (w.chars ++ rest)) = some (w.chars ++ rest) := by
  obtain ⟨c, cs, hw⟩ := List.exists_cons_of_ne_nil w.ne_nil
  have hc : ¬ Text.isBlank c := (w.isSolid c (by simp [hw])).1
  rw [blanks?, if_pos (by decide), Text.trimStart, hw, List.cons_append,
    List.dropWhile_cons_of_neg hc]

theorem name?_word (w : Word) (rest : List Char) :
    name? (w.chars ++ ')' :: rest) = some (w.chars, ')' :: rest) := by
  have hname : ∀ c ∈ w.chars, isNameChar c = true := by
    intro c hc
    have hsolid := w.isSolid c hc
    simp [isNameChar, hsolid]
  rw [name?, List.takeWhile_append_of_pos hname, List.dropWhile_append_of_pos hname,
    List.takeWhile_cons_of_neg (by decide), List.dropWhile_cons_of_neg (by decide),
    List.append_nil]
  split
  next hnil => exact absurd hnil w.ne_nil
  next => rfl

theorem domainName?_line {w : Word} {rest : List Char}
    (h : '\n' ∉ "(define (domain".toList ++ ' ' :: (w.chars ++ ')' :: rest)) :
    domainName? ("(define (domain".toList ++ ' ' :: (w.chars ++ ')' :: rest)) = some w.chars := by
  have hmatch : domainAt? ("(domain".toList ++ ' ' :: (w.chars ++ ')' :: rest)) = some w.chars := by
    have hdomain : ∀ cs, word? "(domain" ("(domain".toList ++ cs) = some cs := fun cs => rfl
    unfold domainAt?
    simp only [Option.bind_eq_bind, hdomain, Option.bind_some, blanks?_word, name?_word]
    rfl
  have hskip : Text.firstMatch domainAt? ("(define (domain".toList ++ ' ' :: (w.chars ++ ')' :: rest))
      = Text.firstMatch domainAt? ("(domain".toList ++ ' ' :: (w.chars ++ ')' :: rest)) := rfl
  rw [domainName?, Text.lines_of_not_mem h (by simp), List.findSome?_cons, hskip,
    Text.firstMatch_of_eq_some hmatch]

theorem problemAt?_line (w d : Word) (rest : List Char) :
    problemAt? ("(define (problem".toList ++ ' ' :: (w.chars ++ ')' :: (" (:domain".toList
        ++ ' ' :: (d.chars ++ ')' :: rest))))
      =
    some (w.chars, d.chars) := by
  have hdefine : ∀ cs, word? "(define" ("(define (problem".toList ++ cs)
      = some (" (problem".toList ++ cs) := fun cs => rfl
  have hproblem : ∀ cs, word? "(problem" (Text.trimStart (" (problem".toList ++ cs)) = some cs :=
    fun cs => rfl
  have hclosing : ∀ cs, word? ")" (')' :: cs) = some cs := fun cs => rfl
  have hdomain : ∀ cs, word? "(:domain" (Text.trimStart (" (:domain".toList ++ cs)) = some cs :=
    fun cs => rfl
  unfold problemAt?
  simp only [Option.bind_eq_bind, hdefine, Option.bind_some, hproblem, blanks?_word, name?_word,
    hclosing, hdomain]
  rfl

theorem isSpaced_word (w : Word) : Text.IsSpaced Text.isBlank (' ' :: w.chars) := by
  have hspaced : Text.IsSpaced Text.isBlank w.chars :=
    .of_forall_not w.isWord.2
  obtain ⟨c, cs, hw⟩ := List.exists_cons_of_ne_nil w.ne_nil
  rw [hw] at hspaced ⊢
  exact hspaced.space (w.isSolid c (by simp [hw])).1

theorem problemNames?_line (w d : Word) (rest : List Char) :
    problemNames? ("(define (problem".toList ++ ' ' :: (w.chars ++ ')' :: (" (:domain".toList
        ++ ' ' :: (d.chars ++ ')' :: rest))))
      =
    some (w.chars, d.chars) := by
  have hheader : Text.IsSpaced Text.isBlank ("(define (problem".toList ++ ((' ' :: w.chars)
      ++ (')' :: " (:domain".toList ++ ((' ' :: d.chars) ++ [')'])))) := by
    refine .append (by decide) ((isSpaced_word w).append ?_)
    exact .append (by decide) ((isSpaced_word d).append (by decide))
  have hcollapse : Text.collapse Text.isBlank (_ ++ rest) = _ ++ Text.collapse Text.isBlank rest :=
    hheader.collapse_append
  simp only [List.append_assoc, List.cons_append, List.nil_append] at hcollapse
  rw [problemNames?, hcollapse]
  exact Text.firstMatch_of_eq_some (problemAt?_line w d _)

end Header
end PddlOutline
