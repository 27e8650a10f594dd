import PddlOutline.Proofs.Parentheses
import PddlOutline.Proofs.SectionSearch

/-!
This module contains which of the ways in which a scan for parentheses may fail can come up while a
document is read. The section of a block opens where its keyword stands, so its scan fails only if
this parenthesis is never closed; the value of a keyword is looked for in an action, whose own
parentheses settle every scan.
-/

namespace PddlOutline

namespace Fragment

/--
Whether a part of `f` is an action, from the parenthesis that opens with the keyword up to the one
that closes it.
-/
def ActionAt (f body : Fragment) : Prop :=
  body.start ∈ f.places .action ∧ ∃ nesting, Section.delimit f .action body.start = .ok nesting
    ∧ f.slice? nesting.outer.span = some body

/--
The scans for parentheses that reading `f` may start, with the fragments and offsets that they start
at and the keywords that stand there.
-/
inductive Scans (f : Fragment) : Keyword → Fragment → Nat → Prop
  | block {k : Keyword} {i : Nat} (hk : k.form = .block) (hi : (f.places k).head? = some i) :
    Scans f k f i
  | action {i : Nat} (hi : i ∈ f.places .action) : Scans f .action f i
  | value {k : Keyword} {body : Fragment} {i : Nat} (hbody : f.ActionAt body)
    (hk : k.form = .value) (hi : (body.places k).head? = some i) : Scans f k body i

end Fragment

namespace Nesting

open Fragment

variable {f : Fragment} {i offset : Nat} {t : Forest}

theorem first_of_hasAt (h : f.HasAt i '(') :
    first f i = .error (.unclosed i) ∨ ∃ t, f.GroupAt i t := by
  have hopens : f.FirstOpens i i := firstOpens_of_hasAt h
  cases hfirst : first f i with
  | ok b =>
    obtain ⟨t, hopens', ht, _⟩ := exists_of_first_ok hfirst
    exact .inr ⟨t, hopens.unique hopens' ▸ ht⟩
  | error e =>
    left
    have hsettles := first_eq_iff.mp hfirst
    cases hsettles with
    | noGroup hfree => exact absurd h (hfree i (Nat.le_refl i)).1
    | unopened hcloses => exact absurd hcloses hopens.not_firstCloses
    | unclosed hopens' => rw [hopens.unique hopens']

/--
A scan that starts inside of a group comes to the parenthesis that closes the group if to no other,
and every group that it comes to is closed before that one.
-/
theorem exists_unopened_of_first_inside {e : NestingError} (hlt : offset < i)
    (hle : i < (Fragment.mk offset t.enclosed).stop)
    (h : first ⟨offset, t.enclosed⟩ i = .error e) : ∃ j, e = .unopened j := by
  have hgroup : (Fragment.mk offset t.enclosed).GroupAt offset t := ⟨[], [], by simp, by simp⟩
  rw [stop_of_enclosed] at hle
  have hsettles := first_eq_iff.mp h
  cases hsettles with
  | noGroup hfree =>
    have hclosing := hgroup.hasAt_place (List.mem_cons_self : (t.nesting offset).outer ∈ _) .closing
    exact absurd hclosing (hfree _ (Nat.le_of_lt_succ hle)).2
  | unopened => exact ⟨_, rfl⟩
  | unclosed hopens hnever =>
    have hat := hopens.2.1
    obtain ⟨u, hu⟩ := hgroup.exists_groupAt_of_isPart (.of_slice? hat)
      (Nat.le_trans (Nat.le_of_lt hlt) hopens.1) hat.lt_stop
    exact absurd hnever (closes_of_groupAt hu).not_neverCloses

end Nesting

/-! How the sections are found that a scan delimits. -/

namespace Section

variable {f : Fragment} {k : Keyword} {i offset : Nat} {e : ReadError} {t : Forest}

theorem delimit_error_block (hk : k.form = .block) (hi : i ∈ f.places k)
    (h : delimit f k i = .error e) :
    Nesting.first f i = .error (.unclosed i)
      ∧ e = .malformed .unclosed (some ⟨i, i + 1⟩) := by
  rcases Nesting.first_of_hasAt (Fragment.hasAt_of_mem_places hk hi) with hfirst | ⟨t, ht⟩
  . rw [delimit, hfirst] at h
    cases h
    exact ⟨hfirst, rfl⟩
  . rw [delimit_of_groupAt ht] at h
    cases h

theorem inside_of_mem_places (hk : k.form = .value)
    (hi : i ∈ (Fragment.mk offset t.enclosed).places k) :
    offset < i ∧ i < (Fragment.mk offset t.enclosed).stop := by
  obtain ⟨front, tag, rest, hchars, htag, rfl⟩ := Fragment.mem_places.mp hi
  obtain ⟨front, rfl⟩ := exists_cons_of_tag hk htag hchars
  have hpart : (Fragment.mk offset t.enclosed).IsPart
      ⟨offset + Text.byteSize ('(' :: front), tag⟩ := ⟨_, rest, hchars, rfl⟩
  constructor
  . rw [Text.byteSize_cons]
    exact Nat.lt_add_of_pos_right (Nat.add_pos_left (Char.utf8Size_pos '(') _)
  . exact hpart.start_lt htag.ne_nil

theorem exists_decidesAt_of_first_error (h : first f k = .error e) :
    ∃ i, (f.places k).head? = some i ∧ DecidesAt f k i (.error e) := by
  cases hplace : (f.places k).head? with
  | none =>
    rw [first_of_nil (List.head?_eq_none_iff.mp hplace)] at h
    cases h
  | some i => exact ⟨i, rfl, (first_eq_iff hplace).mp h⟩

theorem first_error_block (hk : k.form = .block) (h : first f k = .error e) :
    ∃ i, (f.places k).head? = some i ∧ Nesting.first f i = .error (.unclosed i)
      ∧ e = .malformed .unclosed (some ⟨i, i + 1⟩) := by
  obtain ⟨i, hi, _⟩ := exists_decidesAt_of_first_error h
  refine ⟨i, hi, delimit_error_block hk (List.mem_of_mem_head? hi) ?_⟩
  cases hdelimit : delimit f k i with
  | error e' =>
    rw [first_of_delimit_error hi hdelimit] at h
    rw [Except.error.inj h]
  | ok nesting =>
    rw [first_of_delimit_ok hi hdelimit, hk] at h
    cases h

/--
How the value of the keyword at `i` fails to be found.
-/
inductive Valueless (f : Fragment) (k : Keyword) (i : Nat) : ReadError → Prop
  | unopened {j : Nat} (h : Nesting.first f i = .error (.unopened j)) :
    Valueless f k i (.malformed .unopened (some ⟨j, j + 1⟩))
  | apart (h : ApartAt f k i) :
    Valueless f k i (.malformed (.missingValue k) (some ⟨i, i + k.size⟩))

theorem Valueless.apartAt {span : Option Span}
    (h : Valueless f k i (.malformed (.missingValue k) span)) :
    ApartAt f k i ∧ span = some ⟨i, i + k.size⟩ := by
  cases h with
  | apart h => exact ⟨h, rfl⟩

theorem first_error_value (hk : k.form = .value) (h : first ⟨offset, t.enclosed⟩ k = .error e) :
    ∃ i, ((Fragment.mk offset t.enclosed).places k).head? = some i
      ∧ Valueless ⟨offset, t.enclosed⟩ k i e := by
  obtain ⟨i, hi, hdecides⟩ := exists_decidesAt_of_first_error h
  refine ⟨i, hi, ?_⟩
  obtain ⟨hlt, hle⟩ := inside_of_mem_places hk (List.mem_of_mem_head? hi)
  cases hdecides with
  | apart _ hapart => exact .apart hapart
  | unopened hcloses => exact .unopened (Nesting.first_eq_unopened_iff.mpr hcloses)
  | unclosed hopens hnever =>
    obtain ⟨_, hj⟩ := Nesting.exists_unopened_of_first_inside hlt hle
      (Nesting.first_eq_unclosed_iff.mpr ⟨hopens, hnever⟩)
    cases hj
  | noGroup hfree =>
    obtain ⟨_, hj⟩ := Nesting.exists_unopened_of_first_inside hlt hle
      (Nesting.first_eq_noGroup_iff.mpr hfree)
    cases hj

end Section

namespace Fragment

variable {f body : Fragment} {k : Keyword} {i : Nat} {t : Forest}

theorem GroupAt.slice?_outer (ht : f.GroupAt i t) :
    f.slice? (t.nesting i).outer.span = some ⟨i, t.enclosed⟩ := by
  have hslice := (groupAt_iff_isPart.mp ht).slice?_eq
  rwa [span, stop_of_enclosed] at hslice

theorem actionAt_of_groupAt (hi : i ∈ f.places .action) (ht : f.GroupAt i t) :
    f.ActionAt ⟨i, t.enclosed⟩ :=
  ⟨hi, t.nesting i, Section.delimit_of_groupAt ht, ht.slice?_outer⟩

theorem ActionAt.exists_enclosed (h : f.ActionAt body) :
    ∃ t : Forest, body = ⟨body.start, t.enclosed⟩ := by
  obtain ⟨hplace, nesting, hdelimit, hbody⟩ := h
  rcases Nesting.first_of_hasAt (hasAt_of_mem_places rfl hplace) with hfirst | ⟨t, ht⟩
  . rw [Section.delimit, hfirst] at hdelimit
    cases hdelimit
  . rw [Section.delimit_of_groupAt ht] at hdelimit
    cases hdelimit
    exact ⟨t, Option.some.inj (hbody.symm.trans ht.slice?_outer)⟩

theorem Scans.first_ne_noGroup {g : Fragment} (h : f.Scans k g i) :
    Nesting.first g i ≠ .error .noGroup := by
  intro hnone
  have hblock : f.HasAt i '(' → Nesting.first f i ≠ .error .noGroup := by
    intro hat hnone
    exact (Nesting.first_eq_noGroup_iff.mp hnone i (Nat.le_refl i)).1 hat
  cases h with
  | block hk hi =>
    exact hblock (hasAt_of_mem_places hk (List.mem_of_mem_head? hi)) hnone
  | action hi => exact hblock (hasAt_of_mem_places rfl hi) hnone
  | value hbody hk hi =>
    obtain ⟨t, ht⟩ := hbody.exists_enclosed
    rw [ht] at hi hnone
    obtain ⟨hlt, hle⟩ := Section.inside_of_mem_places hk (List.mem_of_mem_head? hi)
    obtain ⟨_, hj⟩ := Nesting.exists_unopened_of_first_inside hlt hle hnone
    cases hj

end Fragment

theorem ReadError.OfToken.not_missingValue {f : Fragment} {k k' : Keyword} {span : Option Span} :
    ¬ OfToken f k (.malformed (.missingValue k') span) := by
  intro h
  cases h with
  | mk _ _ hblames => exact hblames

theorem Section.Failure.not_missingValue {f : Fragment} {k k' : Keyword} {span : Option Span} :
    ¬ Section.Failure f k (.malformed (.missingValue k') span) := by
  intro h
  cases h with
  | token h => exact h.not_missingValue

theorem Domain.exists_scans_of_read_missingValue {d : Document} {k : Keyword} {span : Option Span}
    (h : (read d).outcome = .error (.malformed (.missingValue k) span)) :
    ∃ body i, d.fragment.Scans k body i ∧ Section.ApartAt body k i
      ∧ span = some ⟨i, i + k.size⟩ := by
  rcases failure_of_read_error h with ⟨_, _, hfailure⟩ | ⟨_, _, offset, _, hplaces, _, hfailure⟩
  . exact absurd hfailure Section.Failure.not_missingValue
  . have hoffset : offset ∈ d.fragment.places .action := by
      simp [hplaces]
    cases hfailure with
    | valueless ht hk _ _ hfirst =>
      obtain ⟨i, hi, hvalueless⟩ := Section.first_error_value hk hfirst
      obtain ⟨hapart, hspan⟩ := hvalueless.apartAt
      exact ⟨_, i, .value (Fragment.actionAt_of_groupAt hoffset ht) hk hi, hapart, hspan⟩
    | token h => exact absurd h ReadError.OfToken.not_missingValue

theorem Problem.read_ne_missingValue {d : Document} {k : Keyword} {span : Option Span} :
    (read d).outcome ≠ .error (.malformed (.missingValue k) span) := by
  intro h
  obtain ⟨_, _, hfailure⟩ := failure_of_read_error h
  exact hfailure.not_missingValue

/--
A scan fails in one of three ways, each of which is said by the parentheses of the text alone, and
few of them come up while a document is read: what opens with a keyword fails only if it is never
closed; a value fails only if the action ends before it or other text stands in front of it; and no
scan runs out of parentheses.
-/
theorem scan_failures (f : Fragment) (start : Nat) :
    ((Nesting.first f start = .error .noGroup ↔ f.FreeFrom start)
      ∧ (∀ i, Nesting.first f start = .error (.unopened i) ↔ f.FirstCloses start i)
      ∧ ∀ i, Nesting.first f start = .error (.unclosed i) ↔
        f.FirstOpens start i ∧ f.NeverCloses i)
    ∧ (∀ k e, k.form = .block → Section.first f k = .error e →
      ∃ i, (f.places k).head? = some i ∧ Nesting.first f i = .error (.unclosed i)
        ∧ e = .malformed .unclosed (some ⟨i, i + 1⟩))
    ∧ (∀ i ∈ f.places .action, ∀ e, Section.delimit f .action i = .error e →
      Nesting.first f i = .error (.unclosed i) ∧ e = .malformed .unclosed (some ⟨i, i + 1⟩))
    ∧ (∀ body, f.ActionAt body → ∀ k e, k.form = .value → Section.first body k = .error e →
      ∃ i, (body.places k).head? = some i ∧ Section.Valueless body k i e)
    ∧ (∀ k g i, f.Scans k g i → Nesting.first g i ≠ .error .noGroup)
    ∧ ∀ d : Document, ∀ k span,
      ((Domain.read d).outcome = .error (.malformed (.missingValue k) span) →
        ∃ body i, d.fragment.Scans k body i ∧ Section.ApartAt body k i
          ∧ span = some ⟨i, i + k.size⟩)
      ∧ (Problem.read d).outcome ≠ .error (.malformed (.missingValue k) span) := by
  refine ⟨⟨Nesting.first_eq_noGroup_iff, fun _ => Nesting.first_eq_unopened_iff,
    fun _ => Nesting.first_eq_unclosed_iff⟩, ?_, ?_, ?_, ?_, ?_⟩
  . intro k e hk h
    exact Section.first_error_block hk h
  . intro i hi e h
    exact Section.delimit_error_block rfl hi h
  . intro body hbody k e hk h
    obtain ⟨t, ht⟩ := hbody.exists_enclosed
    rw [ht] at h ⊢
    exact Section.first_error_value hk h
  . intro k g i h
    exact h.first_ne_noGroup
  . intro d k span
    exact ⟨Domain.exists_scans_of_read_missingValue, Problem.read_ne_missingValue⟩

theorem scan_failures_accented :
    let d := Document.ofString "(:action ö :parameters é (p)) (:action b (:goal"
    let f := d.fragment
    let body : Fragment := ⟨0, "(:action ö :parameters é (p))".toList⟩
    (∃ i, (f.places .goal).head? = some i ∧ Nesting.first f i = .error (.unclosed i)
        ∧ ReadError.malformed .unclosed (some ⟨43, 44⟩) = .malformed .unclosed (some ⟨i, i + 1⟩))
      ∧ Nesting.first f 32 = .error (.unclosed 32)
      ∧ (∃ i, (body.places .parameters).head? = some i ∧ Section.Valueless body .parameters i
        (.malformed (.missingValue .parameters) (some ⟨12, 23⟩)))
      ∧ Nesting.first body 12 ≠ .error .noGroup
      ∧ ∃ body i, f.Scans .parameters body i ∧ Section.ApartAt body .parameters i
        ∧ some (Span.mk 12 23) = some ⟨i, i + 11⟩ := by
  intro d f body
  have hbody : f.ActionAt body :=
    ⟨by decide +kernel, ⟨⟨0, 30⟩, [⟨27, 29⟩]⟩, by decide +kernel, by decide +kernel⟩
  obtain ⟨_, hblock, haction, hvalue, hscans, hreads⟩ := scan_failures f 0
  refine ⟨?_, ?_, ?_, ?_, ?_⟩
  . exact hblock .goal _ rfl (by decide +kernel)
  . exact (haction 32 (by decide +kernel) (.malformed .unclosed (some ⟨32, 33⟩))
      (by decide +kernel)).1
  . exact hvalue body hbody .parameters _ rfl (by decide +kernel)
  . exact hscans .parameters body 12 (.value hbody rfl (by decide +kernel))
  . exact (hreads d .parameters (some ⟨12, 23⟩)).1 (by decide +kernel)

end PddlOutline
