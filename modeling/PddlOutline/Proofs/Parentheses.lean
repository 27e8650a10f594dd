import Mathlib.Control.Monad.Basic
import PddlOutline.Proofs.Nesting.Balance
import PddlOutline.Proofs.Success

/-!
This module contains what the readers say of single parentheses. Parentheses are matched anew from
each keyword on, never in the whole text: an opening one that is closed nowhere is reported if it
stands in a section that is read, and what is reported as a closing one without an opening one only
stands where the value of a keyword should be.
-/

namespace PddlOutline
namespace Fragment

/--
Whether a closing parenthesis stands where the value of a keyword should be.
-/
def LacksValue (f : Fragment) (k : Keyword) (i : Nat) : Prop :=
  ∃ (start : Nat) (tag gap : List Char), f.IsPart ⟨start, tag ++ (gap ++ [')'])⟩ ∧ k.Tag tag
    ∧ Text.IsPlain gap ∧ i = start + Text.byteSize (tag ++ gap)

/--
Whether a byte offset is not behind the end of the group that opens at `opening`. A group that is
never closed has no end.
-/
def Reaches (f : Fragment) (opening i : Nat) : Prop :=
  opening ≤ i ∧ ∀ j, f.Matched opening j → i ≤ j

end Fragment

open ReadError

namespace ReadError

theorem OfToken.reason_ne {f : Fragment} {k : Keyword} {reason : Reason} {span : Option Span}
    (h : OfToken f k (.malformed reason span)) : reason ≠ .unclosed ∧ reason ≠ .unopened := by
  cases h with
  | mk _ _ hblames =>
    constructor
    . rintro rfl
      exact hblames
    . rintro rfl
      exact hblames

theorem OfToken.isMalformed {f : Fragment} {k : Keyword} {e : ReadError} (h : OfToken f k e) :
    e.isMalformed := by
  cases h with
  | mk => rfl

end ReadError

namespace Section.Failure

variable {f : Fragment} {k : Keyword} {e : ReadError} {span : Option Span}

theorem isMalformed (h : Section.Failure f k e) : e.isMalformed := by
  cases h with
  | unclosed => rfl
  | token h => exact h.isMalformed

theorem of_unclosed (h : Section.Failure f k (.malformed .unclosed span)) :
    ∃ i, span = some ⟨i, i + 1⟩ ∧ (f.places k).head? = some i ∧ ∀ t, ¬ f.GroupAt i t := by
  cases h with
  | unclosed hi hopen => exact ⟨_, rfl, hi, hopen⟩
  | token h => exact absurd rfl h.reason_ne.1

theorem not_unopened : ¬ Section.Failure f k (.malformed .unopened span) := by
  intro h
  cases h with
  | token h => exact absurd rfl h.reason_ne.2

end Section.Failure

namespace Action.Failure

variable {f : Fragment} {offset : Nat} {e : ReadError} {span : Option Span}

theorem isMalformed_or (h : Action.Failure f offset e) :
    e.isMalformed ∨ ∃ k t, f.GroupAt offset t
      ∧ e = .missingSection k (some (Fragment.mk offset t.enclosed).span) := by
  cases h with
  | missing ht => exact .inr ⟨_, _, ht, rfl⟩
  | token h => exact .inl h.isMalformed
  | _ => exact .inl rfl

theorem of_unclosed (h : Action.Failure f offset (.malformed .unclosed span)) :
    span = some ⟨offset, offset + 1⟩ ∧ ∀ t, ¬ f.GroupAt offset t := by
  cases h with
  | unclosed hopen => exact ⟨rfl, hopen⟩
  | token h => exact absurd rfl h.reason_ne.1

theorem of_unopened (h : Action.Failure f offset (.malformed .unopened span)) :
    ∃ i, span = some ⟨i, i + 1⟩ ∧ f.HasAt i ')' ∧ (∃ o, f.Matched o i)
      ∧ ∃ k, k.form = .value ∧ f.LacksValue k i := by
  cases h with
  | @unopened t k front tag gap rest ht hk htag hgap hclosing =>
    have hpart : f.IsPart ⟨offset, t.enclosed⟩ := Fragment.groupAt_iff_isPart.mp ht
    have hchars : t.enclosed = (front ++ (tag ++ gap)) ++ ')' :: rest := by simp [hclosing]
    refine ⟨_, rfl, ?_, ht.exists_matched hchars, k, hk, ?_⟩
    . apply (Fragment.hasAt_iff (by decide)).mpr
      exact hpart.trans ⟨front ++ (tag ++ gap), rest, hchars, rfl⟩
    . refine ⟨offset + Text.byteSize front, tag, gap, ?_, htag, hgap, ?_⟩
      . exact hpart.trans ⟨front, rest, by simp [hclosing], rfl⟩
      . rw [Text.byteSize_append front, Nat.add_assoc]
  | token h => exact absurd rfl h.reason_ne.2

end Action.Failure

/--
What opens in a group is closed in it.
-/
theorem Fragment.GroupAt.exists_groupAt_of_isPart {f : Fragment} {offset i : Nat} {t : Forest}
    (h : f.GroupAt offset t) (hi : f.IsPart ⟨i, ['(']⟩) (hle : offset ≤ i)
    (hlt : i < (Fragment.mk offset t.enclosed).stop) : ∃ u, f.GroupAt i u := by
  obtain ⟨front, rest, hchars, hoffset⟩ := hi
  exact h.exists_groupAt_of_lt hchars hoffset hle hlt

theorem Fragment.GroupAt.stop_le_of_unclosed {f : Fragment} {offset i : Nat} {t : Forest}
    (h : f.GroupAt offset t) (hi : i ∈ f.places .action) (hopen : ∀ t, ¬ f.GroupAt i t)
    (hle : offset ≤ i) : (Fragment.mk offset t.enclosed).stop ≤ i := by
  refine Nat.le_of_not_lt fun hlt => ?_
  obtain ⟨u, hu⟩ := h.exists_groupAt_of_isPart (isPart_opening_of_mem_places rfl hi) hle hlt
  exact hopen u hu

namespace Domain

variable {d : Document} {span : Option Span}

theorem unclosed_of_read (h : (read d).outcome = .error (.malformed .unclosed span)) :
    ∃ i, span = some ⟨i, i + 1⟩ ∧ (∀ t, ¬ d.fragment.GroupAt i t)
      ∧ ((∃ k ∈ keywords, (d.fragment.places k).head? = some i)
        ∨ i ∈ d.fragment.places .action) := by
  rcases failure_of_read_error h with ⟨k, hk, hfailure⟩
    | ⟨_, before, offset, after, hplaces, _, hfailure⟩
  . obtain ⟨i, hspan, hi, hopen⟩ := hfailure.of_unclosed
    exact ⟨i, hspan, hopen, .inl ⟨k, hk, hi⟩⟩
  . obtain ⟨hspan, hopen⟩ := hfailure.of_unclosed
    exact ⟨offset, hspan, hopen, .inr (by simp [hplaces])⟩

theorem unopened_of_read (h : (read d).outcome = .error (.malformed .unopened span)) :
    ∃ i, span = some ⟨i, i + 1⟩ ∧ d.fragment.HasAt i ')' ∧ (∃ o, d.fragment.Matched o i)
      ∧ ∃ k, k.form = .value ∧ d.fragment.LacksValue k i := by
  rcases failure_of_read_error h with ⟨k, hk, hfailure⟩ | ⟨_, _, _, _, _, _, hfailure⟩
  . exact absurd hfailure Section.Failure.not_unopened
  . exact hfailure.of_unopened

theorem exists_error_of_section_unclosed {k : Keyword} {i : Nat} (hk : k ∈ keywords)
    (hi : (d.fragment.places k).head? = some i) (hopen : ∀ t, ¬ d.fragment.GroupAt i t) :
    ∃ e, (read d).outcome = .error e ∧ e.isMalformed := by
  -- No action is read before all sections have been.
  have hnot : ¬ ∀ k ∈ keywords, d.fragment.ClosesFirst k := by
    intro hcloses
    obtain ⟨t, ht⟩ := hcloses k hk i hi
    exact hopen t ht
  cases hread : (read d).outcome with
  | ok domain => exact absurd (closes_of_read_ok hread).1 hnot
  | error e =>
    rcases failure_of_read_error hread with ⟨_, _, hfailure⟩ | ⟨hcloses, _⟩
    . exact ⟨e, rfl, hfailure.isMalformed⟩
    . exact absurd hcloses hnot

theorem exists_error_of_action_unclosed {i : Nat} (hi : i ∈ d.fragment.places .action)
    (hopen : ∀ t, ¬ d.fragment.GroupAt i t) :
    ∃ e, (read d).outcome = .error e
      ∧ (e.isMalformed ∨ ∃ k span, e = .missingSection k (some span)
        ∧ span.start ∈ d.fragment.places .action ∧ span.stop ≤ i) := by
  cases hread : (read d).outcome with
  | ok domain =>
    obtain ⟨t, ht⟩ := (closes_of_read_ok hread).2 i hi
    exact absurd ht (hopen t)
  | error e =>
    refine ⟨e, rfl, ?_⟩
    rcases failure_of_read_error hread with ⟨_, _, hfailure⟩
      | ⟨_, before, offset, after, hplaces, hbefore, hfailure⟩
    . exact .inl hfailure.isMalformed
    rcases hfailure.isMalformed_or with hmalformed | ⟨k, t, ht, rfl⟩
    . exact .inl hmalformed
    -- An action that lacks a section comes before the open one, because those before it are closed.
    have hlater : offset < i := by
      have hsorted := d.fragment.places_pairwise .action
      rw [hplaces] at hi hsorted
      rcases List.mem_append.mp hi with hi | hi
      . obtain ⟨u, hu⟩ := hbefore i hi
        exact absurd hu (hopen u)
      . cases List.mem_cons.mp hi with
        | inl hi => exact absurd (hi ▸ ht) (hopen t)
        | inr hi => exact (List.pairwise_cons.mp (List.pairwise_append.mp hsorted).2.1).1 i hi
    exact .inr ⟨k, _, rfl, by simp [hplaces], ht.stop_le_of_unclosed hi hopen (Nat.le_of_lt hlater)⟩

end Domain

namespace Problem

variable {d : Document} {span : Option Span}

theorem unclosed_of_read (h : (read d).outcome = .error (.malformed .unclosed span)) :
    ∃ i, span = some ⟨i, i + 1⟩ ∧ (∀ t, ¬ d.fragment.GroupAt i t)
      ∧ ∃ k ∈ keywords, (d.fragment.places k).head? = some i := by
  obtain ⟨k, hk, hfailure⟩ := failure_of_read_error h
  obtain ⟨i, hspan, hi, hopen⟩ := hfailure.of_unclosed
  exact ⟨i, hspan, hopen, k, hk, hi⟩

theorem read_ne_unopened : (read d).outcome ≠ .error (.malformed .unopened span) := by
  intro h
  obtain ⟨k, _, hfailure⟩ := failure_of_read_error h
  exact Section.Failure.not_unopened hfailure

theorem exists_error_of_section_unclosed {k : Keyword} {i : Nat} (hk : k ∈ keywords)
    (hi : (d.fragment.places k).head? = some i) (hopen : ∀ t, ¬ d.fragment.GroupAt i t) :
    ∃ e, (read d).outcome = .error e ∧ e.isMalformed := by
  cases hread : (read d).outcome with
  | ok problem =>
    obtain ⟨t, ht⟩ := closes_of_read_ok hread k hk i hi
    exact absurd ht (hopen t)
  | error e =>
    obtain ⟨_, _, hfailure⟩ := failure_of_read_error hread
    exact ⟨e, rfl, hfailure.isMalformed⟩

end Problem

theorem Fragment.forall_not_groupAt_of_reaches {f : Fragment} {opening i : Nat}
    (hi : f.HasAt i '(') (hopen : ∀ j, ¬ f.Matched i j) (h : f.Reaches opening i) :
    ∀ t, ¬ f.GroupAt opening t := by
  intro t ht
  have hend := h.2 _ (matched_iff.mpr ⟨t, ht, rfl⟩)
  have hlt : i < (Fragment.mk opening t.enclosed).stop := by
    rw [stop, Forest.byteSize_enclosed]
    simp only
    omega
  obtain ⟨u, hu⟩ := ht.exists_groupAt_of_isPart (.of_slice? hi) h.1 hlt
  exact hopen _ (matched_iff.mpr ⟨u, hu, rfl⟩)

/--
An opening parenthesis that is reported is closed nowhere. A closing one that is reported does have
its opening one; what is missing is the value of the keyword in front of it.
-/
theorem parentheses_of_read_error (d : Document) (span : Option Span) :
    ((Domain.read d).outcome = .error (.malformed .unclosed span)
        ∨ (Problem.read d).outcome = .error (.malformed .unclosed span) →
      ∃ i, span = some ⟨i, i + 1⟩ ∧ d.fragment.HasAt i '(' ∧ ∀ j, ¬ d.fragment.Matched i j)
    ∧ ((Domain.read d).outcome = .error (.malformed .unopened span) →
      ∃ i, span = some ⟨i, i + 1⟩ ∧ d.fragment.HasAt i ')' ∧ (∃ o, d.fragment.Matched o i)
        ∧ ∃ k, k.form = .value ∧ d.fragment.LacksValue k i)
    ∧ (Problem.read d).outcome ≠ .error (.malformed .unopened span) := by
  refine ⟨?_, Domain.unopened_of_read, Problem.read_ne_unopened⟩
  have hblock : ∀ k ∈ Domain.keywords ++ Problem.keywords, k.form = .block := by decide
  rintro (h | h)
  . obtain ⟨i, hspan, hopen, ⟨k, hk, hi⟩ | hi⟩ := Domain.unclosed_of_read h
    . refine ⟨i, hspan, ?_, Fragment.forall_not_matched_iff.mpr hopen⟩
      exact Fragment.hasAt_of_mem_places (hblock k (List.mem_append_left _ hk))
        (List.mem_of_mem_head? hi)
    . exact ⟨i, hspan, Fragment.hasAt_of_mem_places rfl hi,
        Fragment.forall_not_matched_iff.mpr hopen⟩
  . obtain ⟨i, hspan, hopen, k, hk, hi⟩ := Problem.unclosed_of_read h
    refine ⟨i, hspan, ?_, Fragment.forall_not_matched_iff.mpr hopen⟩
    exact Fragment.hasAt_of_mem_places (hblock k (List.mem_append_right _ hk))
      (List.mem_of_mem_head? hi)

theorem parentheses_of_read_error_truncated :
    (∀ j, ¬ (Document.ofString "(define (domain d) (:types a").fragment.Matched 19 j)
      ∧ ∃ o, (Document.ofString
        "(:action a :parameters () :precondition () :effect)").fragment.Matched o 50 := by
  constructor
  . have hread : (Domain.read (Document.ofString "(define (domain d) (:types a")).outcome
        = .error (.malformed .unclosed (some ⟨19, 20⟩)) := by
      decide +kernel
    obtain ⟨i, hi, _, hopen⟩ := (parentheses_of_read_error _ _).1 (.inl hread)
    cases hi
    exact hopen
  . have hread : (Domain.read (Document.ofString
        "(:action a :parameters () :precondition () :effect)")).outcome
          = .error (.malformed .unopened (some ⟨50, 51⟩)) := by
      decide +kernel
    obtain ⟨i, hi, _, hmatched, _⟩ := (parentheses_of_read_error _ _).2.1 hread
    cases hi
    exact hmatched

/--
The parenthesis that closes the action is reported as one that nothing opens.
-/
theorem read_effect_without_value :
    (Domain.read (Document.ofString
        "(define (domain d) (:action a :parameters (?x) :precondition (p ?x) :effect))")).outcome
      = .error (.malformed .unopened (some ⟨75, 76⟩))
    ∧ (Document.ofString
        "(define (domain d) (:action a :parameters (?x) :precondition (p ?x) :effect))"
      ).fragment.Matched 19 75 := by
  constructor
  . decide +kernel
  . refine ⟨"(define (domain d) ".toList,
      ":action a :parameters (?x) :precondition (p ?x) :effect".toList, [')'], ?_, ?_, ?_, ?_⟩
    . decide +kernel
    . decide +kernel
    . decide +kernel
    . decide +kernel

/--
An opening parenthesis that is closed nowhere makes every reader fail that reads a section or an
action in which it stands. Only an action before that one may be reported instead, for what it
lacks.
-/
theorem unclosed_reported (d : Document) (i : Nat) (hi : d.fragment.HasAt i '(')
    (hopen : ∀ j, ¬ d.fragment.Matched i j) :
    (∀ k ∈ Domain.keywords, ∀ start ∈ (d.fragment.places k).head?, d.fragment.Reaches start i →
      ∃ e, (Domain.read d).outcome = .error e ∧ e.isMalformed)
    ∧ (∀ start ∈ d.fragment.places .action, d.fragment.Reaches start i →
      ∃ e, (Domain.read d).outcome = .error e
        ∧ (e.isMalformed ∨ ∃ k span, e = .missingSection k (some span)
          ∧ span.start ∈ d.fragment.places .action ∧ span.stop ≤ start))
    ∧ ∀ k ∈ Problem.keywords, ∀ start ∈ (d.fragment.places k).head?, d.fragment.Reaches start i →
      ∃ e, (Problem.read d).outcome = .error e ∧ e.isMalformed := by
  have hstart : ∀ start, d.fragment.Reaches start i → ∀ t, ¬ d.fragment.GroupAt start t :=
    fun start hreaches => Fragment.forall_not_groupAt_of_reaches hi hopen hreaches
  refine ⟨?_, ?_, ?_⟩
  . intro k hk start hplace hreaches
    exact Domain.exists_error_of_section_unclosed hk hplace (hstart start hreaches)
  . intro start hplace hreaches
    exact Domain.exists_error_of_action_unclosed hplace (hstart start hreaches)
  . intro k hk start hplace hreaches
    exact Problem.exists_error_of_section_unclosed hk hplace (hstart start hreaches)

theorem unclosed_reported_truncated :
    (∃ e, (Domain.read (Document.ofString "(:action a (:types (:init (p")).outcome = .error e
        ∧ e.isMalformed)
      ∧ (∃ e, (Domain.read (Document.ofString "(:action a (:types (:init (p")).outcome = .error e
        ∧ (e.isMalformed ∨ ∃ k span, e = .missingSection k (some span)
          ∧ span.start ∈ (Document.ofString "(:action a (:types (:init (p").fragment.places .action
          ∧ span.stop ≤ 0))
      ∧ ∃ e, (Problem.read (Document.ofString "(:action a (:types (:init (p")).outcome = .error e
        ∧ e.isMalformed := by
  have hopen : ∀ i ∈ [0, 11, 19, 26],
      ∀ j, ¬ (Document.ofString "(:action a (:types (:init (p").fragment.Matched i j := by
    intro i hi
    apply Fragment.forall_not_matched_of_first_error (e := .unclosed i)
    revert i
    decide +kernel
  have hreaches : ∀ start ∈ [0, 11, 19],
      (Document.ofString "(:action a (:types (:init (p").fragment.Reaches start 26 := by
    intro start hstart
    constructor
    . revert start
      decide
    . intro j hj
      exact absurd hj (hopen start (List.mem_append_left [26] hstart) j)
  obtain ⟨hsection, haction, hproblem⟩ :=
    unclosed_reported (Document.ofString "(:action a (:types (:init (p") 26 (by decide +kernel)
      (hopen 26 (by decide))
  refine ⟨?_, ?_, ?_⟩
  . exact hsection .types (by decide) 11 (by decide +kernel) (hreaches 11 (by decide))
  . exact haction 0 (by decide +kernel) (hreaches 0 (by decide))
  . exact hproblem .init (by decide) 19 (by decide +kernel) (hreaches 19 (by decide))

/--
What belongs to no section is not matched: a text that breaks off is read, and so is a text with one
parenthesis too many, and an action that breaks off is not reported behind one that lacks a section.
-/
theorem unbalanced_read :
    ((∀ j, ¬ (Document.ofString "(define (domain d)").fragment.Matched 0 j)
      ∧ (Domain.read (Document.ofString "(define (domain d)")).outcome.isOk
      ∧ (Problem.read (Document.ofString "(define (domain d)")).outcome.isOk)
    ∧ ((Document.ofString "(define (domain d)))").fragment.HasAt 19 ')'
      ∧ (∀ i, ¬ (Document.ofString "(define (domain d)))").fragment.Matched i 19)
      ∧ (Domain.read (Document.ofString "(define (domain d)))")).outcome.isOk
      ∧ (Problem.read (Document.ofString "(define (domain d)))")).outcome.isOk)
    ∧ (∀ j, ¬ (Document.ofString "(:action a) (:action b").fragment.Matched 12 j)
      ∧ (Domain.read (Document.ofString "(:action a) (:action b")).outcome
        = .error (.missingSection .parameters (some ⟨0, 11⟩)) := by
  refine ⟨⟨?_, ?_, ?_⟩, ⟨?_, ?_, ?_, ?_⟩, ?_, ?_⟩
  . exact Fragment.forall_not_matched_of_first_error (e := .unclosed 0) (by decide +kernel)
  . decide +kernel
  . decide +kernel
  . decide +kernel
  . have hchars : (Document.ofString "(define (domain d)))").fragment.chars
        = "(define (domain d))".toList ++ ')' :: [] := by
      decide +kernel
    exact Fragment.forall_not_matched_of_isBalanced hchars (by decide +kernel)
  . decide +kernel
  . decide +kernel
  . exact Fragment.forall_not_matched_of_first_error (e := .unclosed 12) (by decide +kernel)
  . decide +kernel

end PddlOutline
