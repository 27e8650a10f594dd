import PddlOutline.Proofs.Normalization.Words

/-!
This module contains the form in which the normalization of a document leaves it: code without
comments, tabs, double spaces and blank lines. Another normalization does not change this form
unless a carriage return has come to stand right before a line feed.
-/

namespace PddlOutline
namespace Text

/--
Whether a text is free of comments and all its spaces are single.
-/
structure IsCode (cs : List Char) : Prop where
  isBare : ∀ c ∈ cs, c ≠ ';' ∧ c ≠ '\t'
  isTight : ¬ [' ', ' '] <:+: cs

/--
Whether a text is code without blank lines, so that its last line ends without a line feed.
-/
structure IsNormal (cs : List Char) : Prop extends IsCode cs where
  isEnded : cs.getLast? ≠ some '\n'
  isFilled : ∀ line ∈ lines cs, ∃ c ∈ line, ¬ isBlank c

theorem pair_infix_cons {a b c : Char} {cs : List Char} :
    [a, b] <:+: c :: cs ↔ c = a ∧ cs.head? = some b ∨ [a, b] <:+: cs := by
  rw [List.infix_cons_iff, List.cons_prefix_cons, eq_comm]
  cases cs with
  | nil => simp
  | cons d cs =>
    rw [List.cons_prefix_cons, List.head?_cons, Option.some.injEq, eq_comm (a := d)]
    simp

theorem pair_infix_newline {a b : Char} (ha : a ≠ '\n') {line cs : List Char} :
    [a, b] <:+: line ++ '\n' :: cs ↔
      [a, b] <:+: line ∨ (line.getLast? = some a ∧ b = '\n') ∨ [a, b] <:+: cs := by
  induction line with
  | nil => simp [pair_infix_cons, Ne.symm ha]
  | cons c line ih =>
    rw [List.cons_append, pair_infix_cons, pair_infix_cons, ih]
    cases line with
    | nil => simp [eq_comm (a := b)]
    | cons d line => simp [List.getLast?_cons_cons, or_assoc]

theorem isCode_newline {line cs : List Char} :
    IsCode (line ++ '\n' :: cs) ↔ IsCode line ∧ IsCode cs := by
  have htight : [' ', ' '] <:+: line ++ '\n' :: cs ↔ [' ', ' '] <:+: line ∨ [' ', ' '] <:+: cs := by
    rw [pair_infix_newline (by decide)]
    simp
  constructor
  . intro h
    have hbare := h.isBare
    have := h.isTight
    rw [htight, not_or] at this
    simp only [List.forall_mem_append, List.forall_mem_cons] at hbare
    exact ⟨⟨hbare.1, this.1⟩, ⟨hbare.2.2, this.2⟩⟩
  . rintro ⟨hline, hcs⟩
    constructor
    . simp only [List.forall_mem_append, List.forall_mem_cons]
      exact ⟨hline.isBare, by decide, hcs.isBare⟩
    . rw [htight, not_or]
      exact ⟨hline.isTight, hcs.isTight⟩

theorem isNormal_line {line : List Char} (h : '\n' ∉ line) :
    IsNormal line ↔ IsCode line ∧ (line ≠ [] → ∃ c ∈ line, ¬ isBlank c) := by
  have hended : line.getLast? ≠ some '\n' := fun hlast => h (List.mem_of_getLast? hlast)
  by_cases hline : line = []
  . subst hline
    exact ⟨fun h => ⟨h.toIsCode, by simp⟩, fun h => ⟨h.1, hended, by simp [lines, rows]⟩⟩
  . have hlines := lines_of_not_mem h hline
    constructor
    . intro hnormal
      exact ⟨hnormal.toIsCode, fun _ => hnormal.isFilled line (by simp [hlines])⟩
    . rintro ⟨hcode, hfilled⟩
      refine ⟨hcode, hended, ?_⟩
      rw [hlines, List.forall_mem_singleton]
      exact hfilled hline

theorem exists_mem_chop (line : List Char) :
    (∃ c ∈ chop line, ¬ isBlank c) ↔ ∃ c ∈ line, ¬ isBlank c := by
  constructor
  . rintro ⟨c, hc, hblank⟩
    exact ⟨c, (prefix_chop line).subset hc, hblank⟩
  . rintro ⟨c, hc, hblank⟩
    refine ⟨c, mem_chop ?_ hc, hblank⟩
    rintro rfl
    exact hblank (by decide)

theorem isNormal_newline {line cs : List Char} (h : '\n' ∉ line) :
    IsNormal (line ++ '\n' :: cs) ↔
      (IsCode line ∧ ∃ c ∈ line, ¬ isBlank c) ∧ cs ≠ [] ∧ IsNormal cs := by
  have hended : (line ++ '\n' :: cs).getLast? ≠ some '\n' ↔
      cs ≠ [] ∧ cs.getLast? ≠ some '\n' := by
    cases cs with
    | nil => simp
    | cons c cs => simp [List.getLast?_cons_cons]
  have hfilled : (∀ l ∈ lines (line ++ '\n' :: cs), ∃ c ∈ l, ¬ isBlank c) ↔
      (∃ c ∈ line, ¬ isBlank c) ∧ ∀ l ∈ lines cs, ∃ c ∈ l, ¬ isBlank c := by
    rw [lines_newline h, List.forall_mem_cons, exists_mem_chop]
  constructor
  . intro hnormal
    have hcode := isCode_newline.mp hnormal.toIsCode
    have hlines := hfilled.mp hnormal.isFilled
    have hlast := hended.mp hnormal.isEnded
    exact ⟨⟨hcode.1, hlines.1⟩, hlast.1, hcode.2, hlast.2, hlines.2⟩
  . rintro ⟨⟨hcode, hline⟩, hne, hcs⟩
    exact ⟨isCode_newline.mpr ⟨hcode, hcs.toIsCode⟩, hended.mpr ⟨hne, hcs.isEnded⟩,
      hfilled.mpr ⟨hline, hcs.isFilled⟩⟩

/-! What normalization makes of a line, and what it leaves alone. -/

theorem mem_collapse {p : Char → Bool} {c : Char} {cs : List Char} (h : c ∈ collapse p cs) :
    c = ' ' ∨ c ∈ cs ∧ ¬ p c := by
  induction cs with
  | nil => cases h
  | cons d cs ih =>
    rw [collapse_cons] at h
    grind

theorem isTight_collapse {p : Char → Bool} (hp : p ' ') (cs : List Char) :
    ¬ [' ', ' '] <:+: collapse p cs := by
  induction cs with
  | nil => simp
  | cons c cs ih =>
    rw [collapse_cons]
    split
    next =>
      split
      next => exact ih
      next hhead =>
        rw [pair_infix_cons, not_or]
        exact ⟨fun h => hhead h.2, ih⟩
    next hc =>
      rw [pair_infix_cons, not_or]
      refine ⟨?_, ih⟩
      rintro ⟨rfl, _⟩
      exact hc hp

theorem length_collapse_le (p : Char → Bool) (cs : List Char) :
    (collapse p cs).length ≤ cs.length := by
  induction cs with
  | nil => simp
  | cons c cs ih =>
    rw [collapse_cons]
    grind

theorem IsCode.collapse_eq {cs : List Char} (h : IsCode cs) : collapse isGap cs = cs := by
  induction cs with
  | nil => rfl
  | cons c cs ih =>
    obtain ⟨hbare, htight⟩ := h
    rw [List.forall_mem_cons] at hbare
    rw [pair_infix_cons, not_or] at htight
    rw [collapse_cons, ih ⟨hbare.2, htight.2⟩]
    split
    next hc =>
      have hspace : c = ' ' := by simpa [isGap, hbare.1.2] using hc
      rw [if_neg, hspace]
      intro hhead
      exact htight.1 ⟨hspace, hhead⟩
    next => rfl

theorem isCode_normalizeLine (line : List Char) : IsCode (normalizeLine line) := by
  refine ⟨?_, isTight_collapse rfl _⟩
  intro c hc
  rcases mem_collapse hc with rfl | ⟨hcode, hgap⟩
  . decide
  . have hbare := List.all_eq_true.mp List.all_takeWhile c hcode
    refine ⟨by simpa using hbare, ?_⟩
    rintro rfl
    exact hgap rfl

theorem not_mem_normalizeLine {line : List Char} {c : Char} (hc : c ≠ ' ') (h : c ∉ line) :
    c ∉ normalizeLine line := by
  intro hmem
  rcases mem_collapse hmem with hspace | ⟨hcode, _⟩
  . exact hc hspace
  . exact h (List.takeWhile_subset _ hcode)

theorem length_normalizeLine_le (line : List Char) : (normalizeLine line).length ≤ line.length := by
  have hcollapse := length_collapse_le isGap (uncomment line)
  have huncomment : (uncomment line).length ≤ line.length := (List.takeWhile_prefix _).length_le
  exact hcollapse.trans huncomment

theorem IsCode.normalizeLine_eq {line : List Char} (h : IsCode line) :
    normalizeLine line = line := by
  have huncomment : uncomment line = line := by
    rw [uncomment, List.takeWhile_eq_self_iff]
    intro c hc
    simpa using (h.isBare c hc).1
  rw [normalizeLine, huncomment, h.collapse_eq]

/-! Normalization step by step. -/

theorem not_allBlank_iff {cs : List Char} : ¬ allBlank cs ↔ ∃ c ∈ cs, ¬ isBlank c := by
  simp [allBlank]

theorem isNormal_atop {line below : List Char} (hcode : IsCode line) (h : '\n' ∉ line)
    (hbelow : IsNormal below) : IsNormal (atop line below) := by
  unfold atop
  split
  next => exact hbelow
  next hblank =>
    rw [not_allBlank_iff] at hblank
    split
    next => exact (isNormal_line h).mpr ⟨hcode, fun _ => hblank⟩
    next hne => exact (isNormal_newline h).mpr ⟨⟨hcode, hblank⟩, hne, hbelow⟩

theorem isNormal_nil : IsNormal [] :=
  ⟨⟨by simp, by simp⟩, by simp, by simp [lines, rows]⟩

theorem isNormal_normalize (cs : List Char) : IsNormal (normalize cs) := by
  induction cs using lines.cases with
  | line line h =>
    rw [normalize_line h]
    apply isNormal_atop (isCode_normalizeLine line)
    . exact not_mem_normalizeLine (by decide) h
    . exact isNormal_nil
  | newline line cs h ih =>
    rw [normalize_newline h]
    apply isNormal_atop (isCode_normalizeLine _)
    . apply not_mem_normalizeLine (by decide)
      intro hmem
      exact h ((prefix_chop line).subset hmem)
    . exact ih

theorem normalize_of_isNormal {cs : List Char} (h : IsNormal cs)
    (hreturn : ¬ ['\r', '\n'] <:+: cs) : normalize cs = cs := by
  induction cs using lines.cases with
  | line line hline =>
    obtain ⟨hcode, hfilled⟩ := (isNormal_line hline).mp h
    rw [normalize_line hline, hcode.normalizeLine_eq, atop]
    by_cases hne : line = []
    . rw [hne]
      rfl
    . rw [if_neg (not_allBlank_iff.mpr (hfilled hne)), if_pos rfl]
  | newline line cs hline ih =>
    obtain ⟨⟨hcode, hfilled⟩, hne, hcs⟩ := (isNormal_newline hline).mp h
    rw [pair_infix_newline (by decide), not_or, not_or] at hreturn
    have hchop : chop line = line := by
      rcases chop_cases line with ⟨hsame, _⟩ | hlast
      . exact hsame
      . have : line.getLast? = some '\r' := by
          rw [hlast, List.getLast?_concat]
        exact absurd ⟨this, rfl⟩ hreturn.2.1
    rw [normalize_newline hline, hchop, hcode.normalizeLine_eq, ih hcs hreturn.2.2, atop,
      if_neg (not_allBlank_iff.mpr hfilled), if_neg hne]

theorem length_atop_le (line below : List Char) :
    (atop line below).length ≤ line.length + (below.length + 1) := by
  unfold atop
  grind

theorem length_normalize_le (cs : List Char) : (normalize cs).length ≤ cs.length := by
  induction cs using lines.cases with
  | line line h =>
    have := length_normalizeLine_le line
    rw [normalize_line h, atop]
    grind
  | newline line cs h ih =>
    have hatop := length_atop_le (normalizeLine (chop line)) (normalize cs)
    have hline := length_normalizeLine_le (chop line)
    have hchop := (prefix_chop line).length_le
    rw [normalize_newline h, List.length_append, List.length_cons]
    omega

/--
A carriage return in front of a line feed is lost.
-/
theorem length_normalize_lt {cs : List Char} (h : ['\r', '\n'] <:+: cs) :
    (normalize cs).length < cs.length := by
  induction cs using lines.cases with
  | line line hline => exact absurd (h.subset (by simp)) hline
  | newline line cs hline ih =>
    have hatop := length_atop_le (normalizeLine (chop line)) (normalize cs)
    have hnormal := length_normalizeLine_le (chop line)
    rw [normalize_newline hline, List.length_append, List.length_cons]
    rw [pair_infix_newline (by decide)] at h
    rcases h with h | ⟨hlast, _⟩ | h
    . exact absurd (h.subset (by simp)) hline
    . have hcs := length_normalize_le cs
      rcases chop_cases line with ⟨_, hnot⟩ | hchop
      . exact absurd hlast hnot
      . have := congrArg List.length hchop
        rw [List.length_append, List.length_singleton] at this
        omega
    . have hcs := ih h
      have hchop := (prefix_chop line).length_le
      omega

/--
The texts that normalization does not change.
-/
theorem normalize_eq_self_iff {cs : List Char} :
    normalize cs = cs ↔ IsNormal cs ∧ ¬ ['\r', '\n'] <:+: cs := by
  constructor
  . intro h
    constructor
    . rw [← h]
      exact isNormal_normalize cs
    . intro hreturn
      have := length_normalize_lt hreturn
      rw [h] at this
      exact Nat.lt_irrefl _ this
  . rintro ⟨hnormal, hreturn⟩
    exact normalize_of_isNormal hnormal hreturn

theorem not_mem_normalize {cs : List Char} {c : Char} (hspace : c ≠ ' ') (hnewline : c ≠ '\n')
    (h : c ∉ cs) : c ∉ normalize cs := by
  have hatop : ∀ line below : List Char, c ∉ line → c ∉ below → c ∉ atop line below := by
    intro line below hline hbelow
    unfold atop
    grind
  induction cs using lines.cases with
  | line line hline =>
    rw [normalize_line hline]
    exact hatop _ _ (not_mem_normalizeLine hspace h) (by simp)
  | newline line cs hline ih =>
    rw [List.mem_append, List.mem_cons, not_or, not_or] at h
    rw [normalize_newline hline]
    apply hatop
    . apply not_mem_normalizeLine hspace
      intro hmem
      exact h.1 ((prefix_chop line).subset hmem)
    . exact ih h.2.2

/--
Normalization leaves code without blank lines. It changes what it has left only where a carriage
return has come to stand right before a line feed.
-/
theorem normalize_leaves_normal (cs : List Char) :
    IsNormal (normalize cs)
    ∧ (normalize (normalize cs) = normalize cs ↔ ¬ ['\r', '\n'] <:+: normalize cs)
    ∧ ('\r' ∉ cs → normalize (normalize cs) = normalize cs) := by
  have hnormal := isNormal_normalize cs
  refine ⟨hnormal, ?_, ?_⟩
  . rw [normalize_eq_self_iff]
    exact and_iff_right hnormal
  . intro h
    rw [normalize_eq_self_iff]
    refine ⟨hnormal, ?_⟩
    intro hreturn
    exact not_mem_normalize (by decide) (by decide) h (hreturn.subset (by simp))

theorem normalize_leaves_normal_returns :
    let cs := "\t(a)  ; b\n\n c\n".toList
    let ds := "(a)\r; b\r\nc\r\n".toList
    '\r' ∉ cs ∧ normalize (normalize cs) = normalize cs ∧ normalize cs = " (a) \n c".toList
      ∧ normalize ds = "(a)\r\nc".toList ∧ normalize (normalize ds) ≠ normalize ds := by
  intro cs ds
  have hcs : '\r' ∉ cs := by decide
  have hds : normalize ds = "(a)\r\nc".toList := by decide
  refine ⟨hcs, (normalize_leaves_normal cs).2.2 hcs, by decide, hds, ?_⟩
  rw [ne_eq, (normalize_leaves_normal ds).2.1, not_not, hds]
  decide

end Text
end PddlOutline
