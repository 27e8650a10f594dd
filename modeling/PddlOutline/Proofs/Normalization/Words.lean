import Mathlib.Data.List.Forall2
import PddlOutline.Proofs.Text.Lines
import PddlOutline.Proofs.Text.Runs

/-!
This module contains what the normalization of a document keeps: the words in front of the comments,
all of them and in their order. A document is normalized line by line, so each step puts the words
of one line in front of those of the lines below it.
-/

namespace PddlOutline
namespace Text

/--
A line on top of the lines below it, unless it is blank.
-/
def atop (line below : List Char) : List Char :=
  if allBlank line then
    below
  else if below = [] then
    line
  else
    line ++ '\n' :: below

theorem intercalate_eq_nil {lines : List (List Char)} (h : ∀ line ∈ lines, line ≠ []) :
    ['\n'].intercalate lines = [] ↔ lines = [] := by
  cases lines with
  | nil => simp
  | cons line lines =>
    have hline := h line List.mem_cons_self
    cases lines with
    | nil => simpa using hline
    | cons line' lines => simp [List.intercalate_cons_cons]

theorem normalize_of_lines {cs ds line : List Char} (h : lines cs = line :: lines ds) :
    normalize cs = atop (normalizeLine line) (normalize ds) := by
  rw [normalize, normalize, h, List.map_cons, List.filter_cons]
  generalize hkept : ((lines ds).map normalizeLine).filter (!allBlank ·) = kept
  have hfilled : ∀ line ∈ kept, line ≠ [] := by
    intro line hline
    rw [← hkept] at hline
    have hblank := (List.mem_filter.mp hline).2
    rintro rfl
    exact absurd hblank (by decide)
  unfold atop
  by_cases hblank : allBlank (normalizeLine line)
  . rw [if_neg (by simp [hblank]), if_pos hblank]
  . rw [if_pos (by simp [hblank]), if_neg hblank]
    cases kept with
    | nil => rw [List.intercalate_singleton, List.intercalate_nil, if_pos rfl]
    | cons line' kept =>
      rw [if_neg, List.intercalate_cons_cons, List.append_assoc]
      . rfl
      . rw [intercalate_eq_nil hfilled]
        exact List.cons_ne_nil line' kept

@[simp]
theorem normalize_nil : normalize [] = [] := rfl

theorem normalize_line {line : List Char} (h : '\n' ∉ line) :
    normalize line = atop (normalizeLine line) [] := by
  by_cases hline : line = []
  . rw [hline]
    rfl
  . have hlines : lines line = line :: lines [] := lines_of_not_mem h hline
    exact normalize_of_lines hlines

theorem normalize_newline {line : List Char} (h : '\n' ∉ line) (cs : List Char) :
    normalize (line ++ '\n' :: cs) = atop (normalizeLine (chop line)) (normalize cs) := by
  apply normalize_of_lines
  exact lines_newline h cs

/-! The words of a document. -/

theorem words_atop (line below : List Char) :
    words (atop line below) = words line ++ words below := by
  unfold atop
  split
  next hblank => rw [words_of_allBlank hblank, List.nil_append]
  next =>
    split
    next hbelow => rw [hbelow, words_nil, List.append_nil]
    next =>
      have hbreak : words (line ++ (['\n'] ++ below)) = words line ++ words below :=
        words_append_blanks (by simp) (by decide)
      exact hbreak

theorem words_collapse {p : Char → Bool} (hp : ∀ c, p c → isBlank c) (cs : List Char) :
    words (collapse p cs) = words cs := by
  have hhead : ∀ cs : List Char, (∀ c ∈ cs.head?, isBlank c) →
      ∀ c ∈ (collapse p cs).head?, isBlank c := by
    intro cs h
    cases cs with
    | nil => exact h
    | cons d cs =>
      rw [collapse_cons]
      split
      . split
        next hspace =>
          rw [hspace]
          simp [isBlank]
        next => simp [isBlank]
      . exact h
  induction cs using Fragment.runs.cases with
  | nil => rfl
  | blank c cs hc ih =>
    rw [words_blank hc, collapse_cons, ← ih]
    split
    . split
      . rfl
      . exact words_blank (by decide) _
    . exact words_blank hc _
  | word word rest hne hword hrest ih =>
    have hsolid : IsSpaced p word := IsSpaced.of_forall_not fun c hc hpc => hword c hc (hp c hpc)
    rw [hsolid.collapse_append, words_word hne hword (hhead rest hrest),
      words_word hne hword hrest, ih]

theorem words_normalizeLine (line : List Char) :
    words (normalizeLine line) = words (uncomment line) :=
  words_collapse (fun _ => isBlank_of_isGap) (uncomment line)

theorem words_normalize (cs : List Char) :
    words (normalize cs) = (lines cs).flatMap fun line => words (uncomment line) := by
  induction cs using lines.cases with
  | line line h =>
    rw [normalize_line h, words_atop, words_normalizeLine, words_nil, List.append_nil]
    by_cases hline : line = []
    . rw [hline]
      exact words_nil
    . rw [lines_of_not_mem h hline, List.flatMap_singleton]
  | newline line cs h ih =>
    rw [normalize_newline h, words_atop, words_normalizeLine, lines_newline h, ih,
      List.flatMap_cons]

theorem flatten_words (cs : List Char) : (words cs).flatten = cs.filter (!isBlank ·) := by
  induction cs using Fragment.runs.cases with
  | nil => rw [words_nil]; rfl
  | blank c cs hc ih => rw [words_blank hc, ih, List.filter_cons_of_neg (by simpa using hc)]
  | word word rest hne hword hrest ih =>
    have hsolid : word.filter (!isBlank ·) = word := by
      rw [List.filter_eq_self]
      intro c hc
      simpa using hword c hc
    rw [words_word hne hword hrest, List.flatten_cons, ih, List.filter_append, hsolid]

/--
What is not blank in a text stands in its words.
-/
theorem filter_flatten_words {p : Char → Bool} (hp : ∀ c, p c → ¬ isBlank c) (cs : List Char) :
    (words cs).flatten.filter p = cs.filter p := by
  rw [flatten_words, List.filter_filter]
  apply List.filter_congr
  intro c _
  by_cases hc : p c
  . simp [hc, hp c hc]
  . simp [hc]

/--
The words of a normalized text are those in front of the comments of its lines, and so are the
parentheses.
-/
theorem normalize_keeps_words (cs : List Char) :
    words (normalize cs) = ((lines cs).flatMap fun line => words (uncomment line))
    ∧ (∀ ds, List.Forall₂ (fun line line' => words (uncomment line) = words (uncomment line'))
        (lines cs) (lines ds) → words (normalize cs) = words (normalize ds))
    ∧ (normalize cs).filter (fun c => c = '(' ∨ c = ')')
      = ((lines cs).flatMap uncomment).filter fun c => c = '(' ∨ c = ')' := by
  refine ⟨words_normalize cs, ?_, ?_⟩
  . intro ds h
    rw [words_normalize, words_normalize]
    generalize lines cs = ls at h
    generalize lines ds = ms at h
    induction h with
    | nil => rfl
    | cons hline _ ih => rw [List.flatMap_cons, List.flatMap_cons, hline, ih]
  . have hsolid : ∀ c, decide (c = '(' ∨ c = ')') → ¬ isBlank c := by
      intro c hc
      rcases of_decide_eq_true hc with rfl | rfl
      . decide
      . decide
    rw [← filter_flatten_words hsolid, words_normalize]
    induction lines cs with
    | nil => rfl
    | cons line rest ih =>
      rw [List.flatMap_cons, List.flatten_append, List.filter_append, ih, List.flatMap_cons,
        List.filter_append, filter_flatten_words hsolid]

theorem normalize_keeps_words_comments :
    let cs := "(a\tb) ; c)\r\n\n(d;e\x0b".toList
    let ds := "(a   b)\n;\n  (d".toList
    List.Forall₂ (fun line line' => words (uncomment line) = words (uncomment line'))
        (lines cs) (lines ds)
      ∧ words (normalize cs) = words (normalize ds)
      ∧ words (normalize ds) = ["(a".toList, "b)".toList, "(d".toList] := by
  intro cs ds
  have hlines : lines cs = ["(a\tb) ; c)".toList, [], "(d;e\x0b".toList]
      ∧ lines ds = ["(a   b)".toList, [';'], "  (d".toList] := by
    decide +kernel
  have hagree : List.Forall₂ (fun line line' => words (uncomment line) = words (uncomment line'))
      (lines cs) (lines ds) := by
    rw [hlines.1, hlines.2]
    refine .cons ?_ (.cons ?_ (.cons ?_ .nil))
    . decide +kernel
    . decide +kernel
    . decide +kernel
  refine ⟨hagree, (normalize_keeps_words cs).2.1 ds hagree, ?_⟩
  decide +kernel

end Text
end PddlOutline
