import Mathlib.Data.List.TakeWhile
import PddlOutline.Proofs.Keyword
import PddlOutline.Proofs.Text.Lines
import PddlOutline.Proofs.WellFormed

/-!
This module contains where the name of an action is found: it is the first word behind the keyword,
on the same line or on a later one, unless a parenthesis or another keyword comes first. Both ways
to look for it pass over the blanks in front of it.
-/

namespace PddlOutline
namespace Action

open Text

/-! The definition of an action behind its keyword, and the two ways to look for a name in it. -/

/--
What comes before the first parenthesis on the first line.
-/
def headline (rest : List Char) : List Char :=
  beforeParen (rest.takeWhile (· ≠ '\n'))

def headWords (rest : List Char) : List (List Char) :=
  (words (headline rest)).takeWhile (!isTag ·)

def firstName? (rest : List Char) : Option (List Char) := do
  let word ← (words rest).head?
  let name := beforeParen word
  if name.isEmpty || isTag name then none else some name

theorem words_beforeParen_chop (line : List Char) :
    words (beforeParen (chop line)) = words (beforeParen line) := by
  rcases chop_cases line with ⟨h, _⟩ | h
  . rw [h]
  . conv_rhs => rw [h]
    rw [beforeParen, beforeParen, List.takeWhile_append]
    split
    next hall =>
      have hsame := (List.takeWhile_prefix (!isParen ·)).eq_of_length hall
      have hreturn : List.takeWhile (!isParen ·) ['\r'] = ['\r'] := by decide
      have hblank : words ['\r'] = [] := words_of_allBlank (by decide)
      rw [hreturn, hsame, words_append (by decide), hblank, List.append_nil]
    next => rfl

theorem words_firstLine (rest : List Char) :
    words (beforeParen ((lines rest).headD [])) = words (headline rest) := by
  induction rest using lines.cases with
  | line line h =>
    have hline : line.takeWhile (· ≠ '\n') = line := by
      rw [List.takeWhile_eq_self_iff]
      intro c hc
      simpa using ne_of_mem_of_not_mem hc h
    rw [headline, hline]
    by_cases hnil : line = []
    . rw [hnil]
      rfl
    . rw [lines_of_not_mem h hnil]
      rfl
  | newline line cs h _ =>
    have hline : (line ++ '\n' :: cs).takeWhile (· ≠ '\n') = line := by
      rw [List.takeWhile_append_of_pos, List.takeWhile_cons_of_neg (by simp), List.append_nil]
      intro c hc
      simpa using ne_of_mem_of_not_mem hc h
    rw [headline, hline, lines_newline h, List.headD_cons, words_beforeParen_chop]

theorem name?_of_tag {tag : List Char} (h : Keyword.action.Tag tag) (rest : List Char) :
    name? (tag ++ rest) = (headWords rest).getLast?.or (firstName? rest) := by
  have hrest : (tag ++ rest).drop Keyword.action.size = rest := by
    rw [← h.length_eq, List.drop_left]
  have hwords : (words (headline rest)).takeWhile (!isTag ·) = headWords rest := rfl
  unfold name?
  simp only [hrest, words_firstLine, hwords]
  cases (headWords rest).getLast? with
  | none => rfl
  | some name => rfl

theorem headWords_nil : headWords [] = [] := by
  show (words []).takeWhile (!isTag ·) = []
  rw [words_nil, List.takeWhile_nil]

theorem firstName?_nil : firstName? [] = none := by
  rw [firstName?, words_nil]
  rfl

theorem headline_append {as : List Char} (h : ∀ c ∈ as, c ≠ '\n' ∧ c ≠ '(' ∧ c ≠ ')')
    (bs : List Char) : headline (as ++ bs) = as ++ headline bs := by
  have hline : ∀ c ∈ as, decide (c ≠ '\n') = true := by
    intro c hc
    simpa using (h c hc).1
  have hparen : ∀ c ∈ as, (!isParen c) = true := by
    intro c hc
    simpa [isParen] using (h c hc).2
  rw [headline, List.takeWhile_append_of_pos hline, beforeParen,
    List.takeWhile_append_of_pos hparen]
  rfl

theorem headline_stop {c : Char} (h : c = '\n' ∨ c = '(' ∨ c = ')') (cs : List Char) :
    headline (c :: cs) = [] := by
  rcases h with rfl | rfl | rfl
  . rfl
  . rfl
  . rfl

theorem mem_headline {c : Char} {cs : List Char} (h : c ∈ (headline cs).head?) : c ∈ cs.head? := by
  cases cs with
  | nil => cases h
  | cons d cs =>
    by_cases hd : d = '\n' ∨ d = '(' ∨ d = ')'
    . rw [headline_stop hd] at h
      cases h
    . rw [not_or, not_or] at hd
      have happend : headline ([d] ++ cs) = [d] ++ headline cs :=
        headline_append (by simpa using hd) cs
      rw [List.singleton_append] at happend
      rw [happend] at h
      exact h

/-! Both ways to look for a name pass over blanks and stop at a parenthesis or a keyword. -/

section Steps

variable {gap : List Char} {c : Char}

theorem headWords_gap (hgap : ∀ d ∈ gap, isBlank d) (cs : List Char) :
    headWords (gap ++ cs) = if '\n' ∈ gap then [] else headWords cs := by
  have hpart : ∀ {part : List Char}, (∀ d ∈ part, isBlank d) → '\n' ∉ part →
      ∀ d ∈ part, d ≠ '\n' ∧ d ≠ '(' ∧ d ≠ ')' := by
    intro part hpart hnewline d hd
    have hblank := hpart d hd
    refine ⟨ne_of_mem_of_not_mem hd hnewline, ?_, ?_⟩
    . rintro rfl
      exact absurd hblank (by decide)
    . rintro rfl
      exact absurd hblank (by decide)
  split
  next hnewline =>
    -- The first line ends within the gap.
    obtain ⟨front, rest, rfl, hfront⟩ := List.eq_append_cons_of_mem hnewline
    have hblank : ∀ d ∈ front, isBlank d := fun d hd => hgap d (List.mem_append_left _ hd)
    rw [headWords, List.append_assoc, headline_append (hpart hblank hfront), List.cons_append,
      headline_stop (.inl rfl), List.append_nil, words_of_allBlank (List.all_eq_true.mpr hblank)]
    rfl
  next hnewline =>
    rw [headWords, headline_append (hpart hgap hnewline), words_blanks hgap]
    rfl

theorem firstName?_gap (hgap : ∀ d ∈ gap, isBlank d) (cs : List Char) :
    firstName? (gap ++ cs) = firstName? cs := by
  rw [firstName?, firstName?, words_blanks hgap]

theorem headWords_stop (h : c = '(' ∨ c = ')' ∨ c = ':') (cs : List Char) :
    headWords (c :: cs) = [] := by
  have hcolon : headline ([':'] ++ cs) = ':' :: headline cs := headline_append (by decide) cs
  rcases h with rfl | rfl | rfl
  . rw [headWords, headline_stop (by decide), words_nil]
    rfl
  . rw [headWords, headline_stop (by decide), words_nil]
    rfl
  . rw [headWords, ← List.singleton_append, hcolon, words_solid (by decide),
      List.takeWhile_cons_of_neg (by simp [isTag])]

theorem firstName?_solid (hc : ¬ isBlank c) (cs : List Char) :
    firstName? (c :: cs) =
      let name := (c :: cs).takeWhile isAtom
      if name.isEmpty || isTag name then none else some name := by
  have hsolid : c :: cs.takeWhile (!isBlank ·) = (c :: cs).takeWhile (!isBlank ·) := by
    rw [List.takeWhile_cons_of_pos (by simpa using hc)]
  have hatom : beforeParen ((c :: cs).takeWhile (!isBlank ·)) = (c :: cs).takeWhile isAtom := by
    rw [beforeParen, List.takeWhile_takeWhile]
    congr 1
    funext d
    simp only [isAtom, isParen]
    grind
  rw [firstName?, words_solid hc, hsolid]
  show (let name := beforeParen ((c :: cs).takeWhile (!isBlank ·))
    if name.isEmpty || isTag name then none else some name) = _
  rw [hatom]

theorem firstName?_stop (h : c = '(' ∨ c = ')' ∨ c = ':') (cs : List Char) :
    firstName? (c :: cs) = none := by
  rcases h with rfl | rfl | rfl
  . rw [firstName?_solid (by decide)]
    rfl
  . rw [firstName?_solid (by decide)]
    rfl
  . rw [firstName?_solid (by decide), List.takeWhile_cons_of_pos (by decide)]
    rfl

end Steps

/-! Both ways to look for a name stop behind it. -/

section Name

variable {name rest : List Char}

theorem IsName.takeWhile_append (h : IsName name) (hrest : ∀ c ∈ rest.head?, ¬ Text.isAtom c) :
    (name ++ rest).takeWhile Text.isAtom = name := by
  have hatom : ∀ c ∈ name, Text.isAtom c = true := by
    intro c hc
    simpa [Text.isAtom, and_assoc] using h.isAtom c hc
  rw [List.takeWhile_append_of_pos hatom]
  cases rest with
  | nil => rw [List.takeWhile_nil, List.append_nil]
  | cons c rest => rw [List.takeWhile_cons_of_neg (hrest c rfl), List.append_nil]

theorem IsName.firstName?_append (h : IsName name) (hrest : ∀ c ∈ rest.head?, ¬ Text.isAtom c) :
    firstName? (name ++ rest) = some name := by
  have htake := h.takeWhile_append hrest
  obtain ⟨hne, hatom, htag⟩ := h
  cases name with
  | nil => exact absurd rfl hne
  | cons c name =>
    rw [List.cons_append] at htake ⊢
    rw [firstName?_solid (hatom c List.mem_cons_self).1, htake]
    show (if false || (some c == some ':') then none else _) = _
    rw [if_neg]
    simpa using htag

theorem IsName.headWords_append (h : IsName name) (hrest : ∀ c ∈ rest.head?, ¬ Text.isAtom c) :
    headWords (name ++ rest) = name :: headWords rest := by
  have hword : IsWord name := ⟨h.ne_nil, fun c hc => (h.isAtom c hc).1⟩
  have hline : ∀ c ∈ name, c ≠ '\n' ∧ c ≠ '(' ∧ c ≠ ')' := by
    intro c hc
    refine ⟨?_, (h.isAtom c hc).2⟩
    rintro rfl
    exact (h.isAtom _ hc).1 (by decide)
  have hblank : ∀ c ∈ (headline rest).head?, isBlank c := by
    intro c hc
    have hnot := hrest c (mem_headline hc)
    by_contra hblank
    -- What is not part of an atom and not blank is a parenthesis, and the line ends before it.
    have hparen : c = '(' ∨ c = ')' := by
      simp only [Text.isAtom] at hnot
      grind
    cases rest with
    | nil => cases hc
    | cons d rest =>
      obtain rfl : d = c := by simpa using mem_headline hc
      rw [headline_stop (.inr hparen)] at hc
      cases hc
  rw [headWords, headline_append hline, words_append hblank, hword.words_eq,
    List.singleton_append, List.takeWhile_cons_of_pos]
  . rfl
  . simpa [isTag] using h.not_isTag

end Name

/-! The name of an action, whatever the layout of its definition. -/

section Layout

variable {tag gap : List Char}

theorem name?_of_gap (h : Keyword.action.Tag tag) (hgap : ∀ c ∈ gap, isBlank c) (cs : List Char) :
    name? (tag ++ (gap ++ cs)) =
      (if '\n' ∈ gap then none else (headWords cs).getLast?).or (firstName? cs) := by
  rw [name?_of_tag h, headWords_gap hgap, firstName?_gap hgap]
  split
  . rfl
  . rfl

theorem name?_of_stop (h : Keyword.action.Tag tag) (hgap : ∀ c ∈ gap, isBlank c) {c : Char}
    (hc : c = '(' ∨ c = ')' ∨ c = ':') (cs : List Char) :
    name? (tag ++ (gap ++ c :: cs)) = none := by
  rw [name?_of_gap h hgap, headWords_stop hc, firstName?_stop hc, List.getLast?_nil, ite_self,
    Option.or_none]

theorem name?_of_blank (h : Keyword.action.Tag tag) (hgap : ∀ c ∈ gap, isBlank c) :
    name? (tag ++ gap) = none := by
  have hname := name?_of_gap h hgap []
  rw [headWords_nil, firstName?_nil, List.getLast?_nil, ite_self, Option.or_none] at hname
  rwa [List.append_nil] at hname

theorem name?_ne_none (h : Keyword.action.Tag tag) (hgap : ∀ c ∈ gap, isBlank c) {c : Char}
    (hc : ¬ isBlank c ∧ c ≠ '(' ∧ c ≠ ')' ∧ c ≠ ':') (cs : List Char) :
    name? (tag ++ (gap ++ c :: cs)) ≠ none := by
  have hatom : Text.isAtom c := by simp [Text.isAtom, hc]
  have hfirst : firstName? (c :: cs) = some ((c :: cs).takeWhile Text.isAtom) := by
    rw [firstName?_solid hc.1, List.takeWhile_cons_of_pos hatom]
    show (if false || (some c == some ':') then none else _) = _
    rw [if_neg (by simpa using hc.2.2.2)]
  rw [name?_of_gap h hgap, hfirst]
  simp

theorem name?_isInfix {name rest : List Char} (h : Keyword.action.Tag tag)
    (hname : name? (tag ++ rest) = some name) : name <:+: rest := by
  have hword : ∀ {word cs : List Char}, word ∈ words cs → word <:+: cs := by
    intro word cs hword
    obtain ⟨before, after, rfl, _⟩ := exists_split_of_mem_words hword
    exact ⟨before, after, by simp⟩
  rw [name?_of_tag h, Option.or_eq_some_iff] at hname
  rcases hname with hname | ⟨_, hname⟩
  . have hmem := List.takeWhile_subset _ (List.mem_of_getLast? hname)
    have hline : headline rest <+: rest :=
      (List.takeWhile_prefix _).trans (List.takeWhile_prefix _)
    exact (hword hmem).trans hline.isInfix
  . obtain ⟨word, hfirst, hname⟩ := Option.bind_eq_some_iff.mp hname
    simp only [Option.ite_none_left_eq_some, Option.some.injEq] at hname
    obtain ⟨_, rfl⟩ := hname
    exact (List.takeWhile_prefix _).isInfix.trans (hword (List.mem_of_mem_head? hfirst))

theorem name?_of_isName {name between behind : List Char} (h : Keyword.action.Tag tag)
    (hname : IsName name) (hgap : ∀ c ∈ gap, isBlank c) (hbetween : ∀ c ∈ between, isBlank c)
    (hbehind : ∃ c ∈ behind.head?, c = '(' ∨ c = ')' ∨ c = ':' ∧ between ≠ []) :
    name? (tag ++ (gap ++ (name ++ (between ++ behind)))) = some name := by
  obtain ⟨c, hc, hstop⟩ := hbehind
  obtain ⟨behind, rfl⟩ := List.head?_eq_some_iff.mp hc
  have hrest : ∀ d ∈ (between ++ c :: behind).head?, ¬ Text.isAtom d := by
    intro d hd
    cases between with
    | nil =>
      obtain rfl : c = d := by simpa using hd
      rcases hstop with rfl | rfl | ⟨_, hne⟩
      . decide
      . decide
      . exact absurd rfl hne
    | cons e between =>
      obtain rfl : e = d := by simpa using hd
      simp [Text.isAtom, hbetween e List.mem_cons_self]
  have hnone : headWords (between ++ c :: behind) = [] := by
    rw [headWords_gap hbetween, headWords_stop (by tauto), ite_self]
  rw [name?_of_gap h hgap, hname.headWords_append hrest, hname.firstName?_append hrest, hnone]
  split
  . rfl
  . rfl

/--
The name of an action is found whatever the layout of its definition is.
-/
theorem name?_layout (h : Keyword.action.Tag tag) :
    (∀ rest, name? (tag ++ rest) = none ↔
      ∀ c ∈ rest.find? (!isBlank ·), c = '(' ∨ c = ')' ∨ c = ':') ∧
    (∀ rest name, name? (tag ++ rest) = some name → IsName name ∧ name <:+: rest) ∧
    ∀ name gap between behind, IsName name → (∀ c ∈ gap, isBlank c) →
      (∀ c ∈ between, isBlank c) →
      (∃ c ∈ behind.head?, c = '(' ∨ c = ')' ∨ c = ':' ∧ between ≠ []) →
      name? (tag ++ (gap ++ (name ++ (between ++ behind)))) = some name := by
  refine ⟨?_, ?_, ?_⟩
  . intro rest
    by_cases hblank : allBlank rest
    . have hall : ∀ c ∈ rest, isBlank c := List.all_eq_true.mp hblank
      have hfind : rest.find? (!isBlank ·) = none := by simpa using hall
      rw [hfind]
      exact ⟨fun _ _ hc => absurd hc (by simp), fun _ => name?_of_blank h hall⟩
    . obtain ⟨gap, c, cs, rfl, hgap, hc⟩ := exists_first_solid hblank
      have hfind : (gap ++ c :: cs).find? (!isBlank ·) = some c := by
        rw [List.find?_append, List.find?_eq_none.mpr (by simpa using hgap), Option.none_or,
          List.find?_cons_of_pos (by simpa using hc)]
      rw [hfind]
      constructor
      . rintro hnone d hd
        obtain rfl : c = d := by simpa using hd
        by_contra hstop
        rw [not_or, not_or] at hstop
        exact name?_ne_none h hgap ⟨hc, hstop⟩ cs hnone
      . intro hstop
        exact name?_of_stop h hgap (hstop c rfl) cs
  . intro rest name hname
    exact ⟨isName_of_name? hname, name?_isInfix h hname⟩
  . intro name gap between behind hname hgap hbetween hbehind
    exact name?_of_isName h hname hgap hbetween hbehind

theorem name?_layout_upper :
    Keyword.action.Tag "(:ACTION".toList ∧
      name? "(:ACTION\n\u2003move\u000b:parameters (?x))".toList = some "move".toList := by
  have h : Keyword.action.Tag "(:ACTION".toList := by unfold Keyword.Tag; decide
  refine ⟨h, ?_⟩
  exact (name?_layout h).2.2 "move".toList "\n\u2003".toList "\u000b".toList
    ":parameters (?x))".toList ⟨by decide, by decide, by decide⟩ (by decide) (by decide) (by decide)

end Layout

end Action
end PddlOutline
