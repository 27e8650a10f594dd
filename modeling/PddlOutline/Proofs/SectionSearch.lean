import PddlOutline.Proofs.Nesting.Endings
import PddlOutline.Proofs.Nesting.Restart
import PddlOutline.Proofs.Offsets
import PddlOutline.Proofs.Ranges

/-!
This module contains searches for a section in a range of a text. What is searched, what is scanned
for parentheses and what is looked at between a keyword and its value are three parts of the text
that end at different places; the search answers as if the range were all of the text, and decides
from the first place at which the keyword stands there.
-/

namespace PddlOutline

theorem Text.exists_append_of_byteSize_le {as bs as' bs' : List Char} (h : as ++ bs = as' ++ bs')
    (hle : byteSize as ≤ byteSize as') : ∃ part, as' = as ++ part ∧ bs = part ++ bs' := by
  rcases List.append_eq_append_iff.mp h with hpart | ⟨part, rfl, rfl⟩
  . exact hpart
  . rw [byteSize_append] at hle
    have hlength := length_le_byteSize part
    have hnil : part = [] := List.length_eq_zero_iff.mp (by omega)
    exact ⟨[], by simp [hnil], by simp [hnil]⟩

namespace Fragment

variable {f g part : Fragment} {k : Keyword} {range : Span} {i start : Nat}

/--
Whether the keyword stands at a byte offset, with all of its characters in the range.
-/
def OccursIn (f : Fragment) (k : Keyword) (range : Span) (i : Nat) : Prop :=
  range.start ≤ i ∧ i + k.size ≤ range.stop
    ∧ ∃ tag, k.Tag tag ∧ f.slice? ⟨i, i + k.size⟩ = some ⟨i, tag⟩

def FirstIn (f : Fragment) (k : Keyword) (range : Span) (i : Nat) : Prop :=
  f.OccursIn k range i ∧ ∀ j, f.OccursIn k range j → i ≤ j

theorem IsPart.within (h : f.IsPart part) (hg : f.IsPart g) (hstart : part.start ≤ g.start)
    (hstop : g.stop ≤ part.stop) : part.IsPart g := by
  obtain ⟨front, rest, hchars, hpart⟩ := h
  obtain ⟨front', rest', hchars', hg⟩ := hg
  rw [hchars] at hchars'
  obtain ⟨before, rfl, hbehind⟩ :=
    Text.exists_append_of_byteSize_le hchars' (by omega)
  rw [Text.byteSize_append] at hg
  rw [← List.append_assoc] at hbehind
  obtain ⟨after, hafter, _⟩ := Text.exists_append_of_byteSize_le hbehind.symm (by
    rw [stop, stop] at hstop
    rw [Text.byteSize_append]
    omega)
  exact ⟨before, after, by rw [hafter, List.append_assoc], by omega⟩

theorem IsPart.slice?_of_slice? (h : f.IsPart part) (hg : part.slice? range = some g) :
    f.slice? range = some g := by
  rw [← slice?_span hg]
  exact (h.trans (.of_slice? hg)).slice?_eq

theorem occursIn_iff (h : f.slice? range = some part) :
    f.OccursIn k range i ↔ i ∈ part.places k := by
  have hpart : f.IsPart part := .of_slice? h
  have hspan := slice?_span h
  constructor
  . rintro ⟨hstart, hstop, tag, htag, hslice⟩
    have hinside : part.IsPart ⟨i, tag⟩ := by
      apply hpart.within (.of_slice? hslice)
      . rw [← hspan] at hstart
        exact hstart
      . rw [← hspan] at hstop
        rw [stop, htag.byteSize_eq]
        exact hstop
    obtain ⟨front, rest, hchars, hi⟩ := hinside
    exact mem_places.mpr ⟨front, tag, rest, hchars, htag, hi⟩
  . intro hi
    obtain ⟨tag, htag, htagged⟩ := exists_tag_of_mem_places hi
    have hstop : (Fragment.mk i tag).stop = i + k.size := by
      rw [stop, htag.byteSize_eq]
    refine ⟨?_, ?_, tag, htag, ?_⟩
    . rw [← hspan]
      exact htagged.start_le
    . rw [← hspan, ← hstop]
      exact htagged.stop_le
    . rw [← hstop]
      exact (hpart.trans htagged).slice?_eq

theorem firstIn_iff (h : f.slice? range = some part) :
    f.FirstIn k range i ↔ (part.places k).head? = some i := by
  unfold FirstIn
  simp only [occursIn_iff h]
  have hsorted := part.places_pairwise k
  cases hplaces : part.places k with
  | nil => simp
  | cons j js =>
    rw [hplaces, List.pairwise_cons] at hsorted
    rw [List.head?_cons, Option.some.injEq]
    constructor
    . rintro ⟨hi, hle⟩
      have hij := hle j List.mem_cons_self
      cases List.mem_cons.mp hi with
      | inl hi => exact hi.symm
      | inr hi => exact absurd (hsorted.1 i hi) (Nat.not_lt_of_le hij)
    . rintro rfl
      refine ⟨List.mem_cons_self, fun l hl => ?_⟩
      cases List.mem_cons.mp hl with
      | inl hl => exact Nat.le_of_eq hl.symm
      | inr hl => exact Nat.le_of_lt (hsorted.1 l hl)

end Fragment

theorem Nesting.first_append {offset start : Nat} {front rest : List Char}
    (h : offset + Text.byteSize front ≤ start) :
    first ⟨offset, front ++ rest⟩ start = first ⟨offset + Text.byteSize front, rest⟩ start := by
  have hfront : (Fragment.marks.go offset front).filter (start ≤ ·.offset) = [] := by
    rw [List.filter_eq_nil_iff]
    intro m hm
    have := (Fragment.offset_of_mem_marks_go hm).2
    simp only [decide_eq_true_eq]
    omega
  rw [first, first, Fragment.marks, Fragment.marks, Fragment.marks_go_append, List.filter_append,
    hfront, List.nil_append]

/--
The text up to the end of a range, scanned from inside of the range, is as good as the range.
-/
theorem Fragment.exists_scanned {f part : Fragment} {range : Span}
    (h : f.slice? range = some part) : ∃ scanned, f.slice ⟨f.start, range.stop⟩ = .ok scanned
      ∧ ∀ start, part.start ≤ start → Nesting.first scanned start = Nesting.first part start := by
  have hspan := slice?_span h
  obtain ⟨front, rest, hchars, hstart⟩ := IsPart.of_slice? h
  obtain ⟨offset, cs⟩ := part
  simp only at hchars hstart
  refine ⟨⟨f.start, front ++ cs⟩, ?_, ?_⟩
  . rw [slice_eq_ok_iff, slice?_eq_some_iff]
    refine ⟨?_, [], rest, by simp [hchars], rfl⟩
    rw [← hspan, span, stop, Text.byteSize_append, ← Nat.add_assoc, ← hstart]
    rfl
  . intro start hle
    rw [hstart] at hle ⊢
    exact Nesting.first_append hle

namespace Section

variable {f part : Fragment} {k : Keyword} {range : Span} {i : Nat}

/--
The group of the first section in a range, where all that is looked at is cut out of the whole text:
the keyword is searched in the range, the parentheses are matched from there on in the text up to
the end of the range, and the gap is a part of the text as well.
-/
def delimitIn (f : Fragment) (k : Keyword) (range : Span) : Except ReadError (Option Nesting) := do
  let searched ← f.slice range
  match (searched.places k).head? with
  | none => return none
  | some offset =>
    let scanned ← f.slice ⟨f.start, range.stop⟩
    let nesting ← delimit scanned k offset
    if k.form = .value then
      checkValue f k offset nesting
    return some nesting

theorem checkValue_of_isPart (hpart : f.IsPart part) (hk : k.form = .value)
    (hi : i ∈ part.places k) {nesting : Nesting} (h : delimit part k i = .ok nesting) :
    checkValue f k i nesting = checkValue part k i nesting := by
  obtain ⟨gap, hgap⟩ := Fragment.covers_gap hk (.refl part) hi h
  rw [checkValue_of_slice (Fragment.slice_eq_ok_iff.mpr (hpart.slice?_of_slice? hgap)),
    checkValue_of_slice (Fragment.slice_eq_ok_iff.mpr hgap)]

theorem delimitIn_eq (h : f.slice? range = some part) :
    delimitIn f k range = (first part k).map (Option.map nesting) := by
  rw [delimitIn, Fragment.slice_eq_ok_iff.mpr h]
  show (match (part.places k).head? with | none => _ | some offset => _) = _
  cases hplace : (part.places k).head? with
  | none =>
    rw [first_of_nil (List.head?_eq_none_iff.mp hplace)]
    rfl
  | some i =>
    have hi := List.mem_of_mem_head? hplace
    obtain ⟨tag, _, htagged⟩ := Fragment.exists_tag_of_mem_places hi
    obtain ⟨scanned, hscanned, hsame⟩ := Fragment.exists_scanned h
    have hdelimit : delimit scanned k i = delimit part k i := by
      rw [delimit, delimit, hsame i htagged.start_le]
    rw [hscanned]
    show (delimit scanned k i >>= fun nesting => _) = _
    rw [hdelimit]
    cases hnesting : delimit part k i with
    | error e =>
      rw [first_of_delimit_error hplace hnesting]
      rfl
    | ok nesting =>
      rw [first_of_delimit_ok hplace hnesting]
      show (if k.form = .value then _ else _) = _
      cases hk : k.form with
      | block => rfl
      | value =>
        rw [if_pos rfl, checkValue_of_isPart (.of_slice? h) hk hi hnesting]
        show (checkValue part k i nesting >>= fun _ => _) = _
        cases checkValue part k i nesting with
        | error e => rfl
        | ok _ => rfl

/--
Whether other text stands between the keyword at `i` and the first group behind it.
-/
def ApartAt (f : Fragment) (k : Keyword) (i : Nat) : Prop :=
  ∃ b gap, Nesting.first f i = .ok b ∧ f.slice? ⟨i + k.size, b.outer.opening⟩ = some gap
    ∧ ¬ Text.allBlank gap.chars

/--
What a search answers that decides from the keyword at `i`, said of the parentheses behind it.
-/
inductive DecidesAt (f : Fragment) (k : Keyword) (i : Nat) :
    Except ReadError (Option Section) → Prop
  | found {b : Nesting} (hb : b.IsPairing f i)
    (hvalue : k.form = .value → ∃ gap, f.slice? ⟨i + k.size, b.outer.opening⟩ = some gap
      ∧ Text.allBlank gap.chars) : DecidesAt f k i (.ok (some ⟨k, f, b⟩))
  | apart (hk : k.form = .value) (h : ApartAt f k i) :
    DecidesAt f k i (.error (.malformed (.missingValue k) (some ⟨i, i + k.size⟩)))
  | unopened {j : Nat} (h : f.FirstCloses i j) :
    DecidesAt f k i (.error (.malformed .unopened (some ⟨j, j + 1⟩)))
  | unclosed {j : Nat} (h : f.FirstOpens i j) (hnever : f.NeverCloses j) :
    DecidesAt f k i (.error (.malformed .unclosed (some ⟨j, j + 1⟩)))
  | noGroup (h : f.FreeFrom i) :
    DecidesAt f k i (.error (.malformed (.missingValue k) (some ⟨i, i + k.size⟩)))

theorem delimit_of_ok {b : Nesting} (h : Nesting.first f i = .ok b) : delimit f k i = .ok b := by
  rw [delimit, h]

theorem exists_decidesAt (hi : i ∈ f.places k) : ∃ x, DecidesAt f k i x := by
  cases hfirst : Nesting.first f i with
  | error e =>
    have hsettles := Nesting.first_eq_iff.mp hfirst
    cases hsettles with
    | noGroup h => exact ⟨_, .noGroup h⟩
    | unopened h => exact ⟨_, .unopened h⟩
    | unclosed h hnever => exact ⟨_, .unclosed h hnever⟩
  | ok b =>
    have hb := Nesting.first_eq_ok_iff.mp hfirst
    cases hk : k.form with
    | block => exact ⟨_, .found hb fun hvalue => absurd (hk.symm.trans hvalue) nofun⟩
    | value =>
      obtain ⟨gap, hgap⟩ := Fragment.covers_gap hk (.refl f) hi (delimit_of_ok hfirst)
      by_cases hblank : Text.allBlank gap.chars
      . exact ⟨_, .found hb fun _ => ⟨gap, hgap, hblank⟩⟩
      . exact ⟨_, .apart hk ⟨b, gap, hfirst, hgap, hblank⟩⟩

theorem first_of_decidesAt {x : Except ReadError (Option Section)}
    (hi : (f.places k).head? = some i) (h : DecidesAt f k i x) : first f k = x := by
  cases h with
  | found hb hvalue =>
    rw [first_of_delimit_ok hi (delimit_of_ok (Nesting.first_eq_ok_iff.mpr hb))]
    cases hk : k.form with
    | block => rfl
    | value =>
      obtain ⟨gap, hgap, hblank⟩ := hvalue hk
      simp only [checkValue_of_slice (Fragment.slice_eq_ok_iff.mpr hgap), if_pos hblank, Except.map]
  | apart hk h =>
    obtain ⟨b, gap, hb, hgap, hblank⟩ := h
    rw [first_of_delimit_ok hi (delimit_of_ok hb), hk]
    simp only [checkValue_of_slice (Fragment.slice_eq_ok_iff.mpr hgap), if_neg hblank, Except.map]
  | unopened h =>
    apply first_of_delimit_error hi
    rw [delimit, Nesting.first_eq_unopened_iff.mpr h]
  | unclosed h hnever =>
    apply first_of_delimit_error hi
    rw [delimit, Nesting.first_eq_unclosed_iff.mpr ⟨h, hnever⟩]
  | noGroup h =>
    apply first_of_delimit_error hi
    rw [delimit, Nesting.first_eq_noGroup_iff.mpr h]

theorem first_eq_iff {x : Except ReadError (Option Section)}
    (hi : (f.places k).head? = some i) : first f k = x ↔ DecidesAt f k i x := by
  constructor
  . intro h
    obtain ⟨y, hy⟩ := exists_decidesAt (List.mem_of_mem_head? hi)
    rw [← h, first_of_decidesAt hi hy]
    exact hy
  . exact first_of_decidesAt hi

/--
The group of a section is closed in the range that was searched.
-/
theorem bounds_of_first_ok {s : Section} (h : f.slice? range = some part)
    (hs : first part k = .ok (some s)) :
    range.start ≤ s.nesting.outer.opening ∧ s.nesting.outer.closing < range.stop
      ∧ f.Closes s.nesting.outer.opening s.nesting.outer.closing := by
  obtain ⟨_, hfragment, t, hgroup, hnesting⟩ := exists_of_first_ok hs
  rw [hfragment] at hgroup
  have hspan := Fragment.slice?_span h
  have hpart : f.IsPart part := .of_slice? h
  have hinside : part.IsPart ⟨s.nesting.outer.opening, t.enclosed⟩ :=
    Fragment.groupAt_iff_isPart.mp hgroup
  have hstop := hinside.stop_le
  rw [Fragment.stop_of_enclosed, ← hnesting] at hstop
  refine ⟨?_, ?_, ?_⟩
  . rw [← hspan]
    exact hinside.start_le
  . rw [← hspan]
    exact hstop
  . have hcloses := Fragment.closes_of_groupAt
      (Fragment.groupAt_iff_isPart.mpr (hpart.trans hinside))
    rw [hnesting]
    exact hcloses

theorem first_eq_none_iff : first f k = .ok none ↔ f.places k = [] := by
  constructor
  . intro h
    cases hplace : (f.places k).head? with
    | none => exact List.head?_eq_none_iff.mp hplace
    | some i => cases (first_eq_iff hplace).mp h
  . exact first_of_nil

end Section

/--
A search in a range finds no section iff the keyword does not stand in the range, and decides from
the first place where it does otherwise. The group of a section is in the range, at this place or
behind the keyword with nothing but blanks in between. Only the text in the range counts.
-/
theorem search_in_range (f part : Fragment) (k : Keyword) (range : Span)
    (h : f.slice? range = some part) :
    Section.delimitIn f k range = (Section.first part k).map (Option.map Section.nesting)
    ∧ (Section.first part k = .ok none ↔ ∀ i, ¬ f.OccursIn k range i)
    ∧ (∀ i x, f.FirstIn k range i → (Section.first part k = x ↔ Section.DecidesAt part k i x))
    ∧ (∀ s, Section.first part k = .ok (some s) → ∃ i, f.FirstIn k range i
      ∧ (range.start ≤ s.nesting.outer.opening ∧ s.nesting.outer.closing < range.stop
        ∧ f.Closes s.nesting.outer.opening s.nesting.outer.closing)
      ∧ match k.form with
        | .block => s.nesting.outer.opening = i
        | .value => ∃ gap, f.slice? ⟨i + k.size, s.nesting.outer.opening⟩ = some gap
          ∧ Text.allBlank gap.chars)
    ∧ Section.first part k = Outcome.bimap (Option.map (Section.shift range.start))
      (ReadError.shift range.start) (Section.first (Fragment.whole part.chars) k) := by
  refine ⟨Section.delimitIn_eq h, ?_, ?_, ?_, ?_⟩
  . rw [Section.first_eq_none_iff, List.eq_nil_iff_forall_not_mem]
    simp only [Fragment.occursIn_iff h]
  . intro i x hi
    exact Section.first_eq_iff ((Fragment.firstIn_iff h).mp hi)
  . intro s hs
    obtain ⟨i, hi, _⟩ := Section.exists_delimit_of_first_ok hs
    refine ⟨i, (Fragment.firstIn_iff h).mpr hi, Section.bounds_of_first_ok h hs, ?_⟩
    have hdecides := (Section.first_eq_iff hi).mp hs
    cases hdecides with
    | found hb hvalue =>
      cases hk : k.form with
      | block =>
        have hopens := Fragment.firstOpens_of_hasAt
          (Fragment.hasAt_of_mem_places hk (List.mem_of_mem_head? hi))
        exact hb.opens.unique hopens
      | value =>
        obtain ⟨gap, hgap, hblank⟩ := hvalue hk
        exact ⟨gap, (Fragment.IsPart.of_slice? h).slice?_of_slice? hgap, hblank⟩
  . have hshift : part = (Fragment.whole part.chars).shift range.start := by
      rw [← Fragment.slice?_span h, Fragment.shift, Fragment.whole]
      simp
    exact (congrArg (Section.first · k) hshift).trans (Section.first_shift _ k)

/--
The range ends in the group of the second keyword, but the first one decides.
-/
theorem search_in_range_cut :
    let f := Fragment.whole "é (:action ö :EFFECT\t(p) :effect (q))".toList
    let part : Fragment := ⟨3, "(:action ö :EFFECT\t(p) :effect (".toList⟩
    let s : Section := ⟨.effect, part, ⟨⟨23, 25⟩, []⟩⟩
    Section.delimitIn f .effect ⟨3, 36⟩ = .ok (some ⟨⟨23, 25⟩, []⟩)
      ∧ Section.DecidesAt part .effect 15 (.ok (some s))
      ∧ ∃ i, f.FirstIn .effect ⟨3, 36⟩ i ∧ (3 ≤ 23 ∧ 25 < 36 ∧ f.Closes 23 25)
        ∧ ∃ gap, f.slice? ⟨i + 7, 23⟩ = some gap ∧ Text.allBlank gap.chars := by
  intro f part s
  have hpart : f.slice? ⟨3, 36⟩ = some part := by
    decide +kernel
  have hplace : (part.places .effect).head? = some 15 := by
    decide +kernel
  have hfirst : Section.first part .effect = .ok (some s) := by
    decide +kernel
  obtain ⟨hcut, _, hdecides, hfound, _⟩ := search_in_range f part .effect ⟨3, 36⟩ hpart
  refine ⟨?_, ?_, ?_⟩
  . rw [hcut, hfirst]
    rfl
  . exact (hdecides 15 _ ((Fragment.firstIn_iff hpart).mpr hplace)).mp hfirst
  . exact hfound s hfirst

end PddlOutline
