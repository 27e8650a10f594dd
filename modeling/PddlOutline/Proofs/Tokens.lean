import Mathlib.Data.List.DropRight
import PddlOutline.Proofs.Parts
import PddlOutline.ReadError
import PddlOutline.Token

/-!
This module contains what the tokens of a range are: its maximal runs of characters that are not
blank, each with the bytes at which it stands in the text as a whole.
-/

namespace PddlOutline
namespace Fragment

variable {f r r' : Fragment} {start i : Nat} {c : Char} {cs word rest : List Char}

theorem not_isRun_nil : ¬ (Fragment.mk start []).IsRun r := by
  rintro ⟨before, after, hchars, _, hne, _⟩
  have hempty := (List.append_eq_nil_iff.mp hchars.symm).2
  exact hne (List.append_eq_nil_iff.mp hempty).1

theorem IsRun.of_blank (hc : Text.isBlank c) (h : (Fragment.mk start (c :: cs)).IsRun r) :
    (Fragment.mk (start + c.utf8Size) cs).IsRun r := by
  obtain ⟨before, after, hchars, hstart, hne, hsolid, hbefore, hafter⟩ := h
  cases before with
  | nil =>
    -- A run does not start with a blank.
    obtain ⟨d, ds, hr⟩ := List.exists_cons_of_ne_nil hne
    rw [hr] at hchars hsolid
    obtain rfl : c = d := (List.cons.inj hchars).1
    exact absurd hc (hsolid c List.mem_cons_self)
  | cons d before =>
    obtain ⟨rfl, hcs⟩ := List.cons.inj hchars
    refine ⟨before, after, hcs, ?_, hne, hsolid, ?_, hafter⟩
    . rw [hstart, Text.byteSize_cons, Nat.add_assoc]
    . cases before with
      | nil => simp
      | cons e before => simpa [List.getLast?_cons_cons] using hbefore

/--
A text splits in no more than one way into a word and what does not go on with this word.
-/
theorem word_inj {word' rest' : List Char} (hword : ∀ c ∈ word, ¬ Text.isBlank c)
    (hrest : ∀ c ∈ rest.head?, Text.isBlank c) (hword' : ∀ c ∈ word', ¬ Text.isBlank c)
    (hrest' : ∀ c ∈ rest'.head?, Text.isBlank c) (h : word ++ rest = word' ++ rest') :
    word = word' := by
  rcases List.append_eq_append_iff.mp h with ⟨part, rfl, rfl⟩ | ⟨part, rfl, rfl⟩
  . cases part with
    | nil => rw [List.append_nil]
    | cons d part => exact absurd (hrest d rfl) (hword' d (by simp))
  . cases part with
    | nil => rw [List.append_nil]
    | cons d part => exact absurd (hrest' d rfl) (hword d (by simp))

theorem IsRun.of_word (hword : ∀ c ∈ word, ¬ Text.isBlank c)
    (hrest : ∀ c ∈ rest.head?, Text.isBlank c) (h : (Fragment.mk start (word ++ rest)).IsRun r) :
    r = ⟨start, word⟩ ∨ (Fragment.mk (start + Text.byteSize word) rest).IsRun r := by
  obtain ⟨before, after, hchars, hstart, hne, hsolid, hbefore, hafter⟩ := h
  simp only at hchars hstart
  rcases List.append_eq_append_iff.mp hchars with ⟨part, rfl, hpart⟩ | ⟨part, rfl, hpart⟩
  . right
    rw [Text.byteSize_append, ← Nat.add_assoc] at hstart
    refine ⟨part, after, hpart, hstart, hne, hsolid, ?_, hafter⟩
    cases part with
    | nil => simp
    | cons d part => simpa [List.getLast?_append] using hbefore
  . left
    have hnone : before = [] := by
      -- The last character in front of a run is blank, and no character of the word is.
      rw [← List.getLast?_eq_none_iff, Option.eq_none_iff_forall_ne_some]
      intro d hd
      exact absurd (hbefore d hd) (hword d (List.mem_append_left part (List.mem_of_getLast? hd)))
    subst hnone
    have hsame : r.chars = part := word_inj hsolid hafter hword hrest hpart
    cases r
    simp_all

theorem mem_runs : r ∈ f.runs ↔ f.IsRun r := by
  refine ⟨isRun_of_mem_runs, ?_⟩
  obtain ⟨start, chars⟩ := f
  intro h
  rw [runs]
  simp only
  induction chars using runs.cases generalizing start with
  | nil => exact absurd h not_isRun_nil
  | blank c cs hc ih =>
    rw [runs.go_blank hc]
    exact ih _ (h.of_blank hc)
  | word word rest hne hword hrest ih =>
    rw [runs.go_word hne hword hrest]
    rcases h.of_word hword hrest with rfl | h
    . exact List.mem_cons_self
    . exact List.mem_cons_of_mem _ (ih _ h)

theorem runs_pairwise (f : Fragment) : f.runs.Pairwise (·.stop < ·.start) := by
  obtain ⟨start, chars⟩ := f
  rw [runs]
  simp only
  induction chars using runs.cases generalizing start with
  | nil =>
    rw [runs.go]
    exact .nil
  | blank c cs hc ih =>
    rw [runs.go_blank hc]
    exact ih _
  | word word rest hne hword hrest ih =>
    rw [runs.go_word hne hword hrest, List.pairwise_cons]
    refine ⟨?_, ih _⟩
    intro r hr
    obtain ⟨before, after, hchars, hstart, hne, hsolid, _⟩ :=
      isRun_of_mem_runs (f := ⟨start + Text.byteSize word, rest⟩) hr
    simp only at hchars hstart
    rw [hstart, stop]
    cases before with
    | nil =>
      -- The blank behind the word would be part of the run.
      obtain ⟨d, ds, hr⟩ := List.exists_cons_of_ne_nil hne
      exact absurd (hrest d (by simp [hchars, hr])) (hsolid d (by simp [hr]))
    | cons d before =>
      have := d.utf8Size_pos
      rw [Text.byteSize_cons]
      simp only
      omega

/--
Every character that is not blank stands in the run that goes as far as there are such characters on
both sides of it.
-/
theorem exists_isRun (h : f.IsPart ⟨i, [c]⟩) (hc : ¬ Text.isBlank c) :
    ∃ r, f.IsRun r ∧ r.start ≤ i ∧ i < r.stop := by
  obtain ⟨as, bs, hchars, hi⟩ := h
  simp only at hchars hi
  let solid := fun d => !Text.isBlank d
  have hsplit : as.rdropWhile solid ++ as.rtakeWhile solid = as :=
    List.rdropWhile_append_rtakeWhile
  have hbehind : (c :: bs.takeWhile solid) ++ bs.dropWhile solid = c :: bs := by
    rw [List.cons_append, List.takeWhile_append_dropWhile]
  have hsize := congrArg Text.byteSize hsplit
  rw [Text.byteSize_append] at hsize
  refine ⟨⟨f.start + Text.byteSize (as.rdropWhile solid),
    as.rtakeWhile solid ++ c :: bs.takeWhile solid⟩,
    ⟨as.rdropWhile solid, bs.dropWhile solid, ?_, rfl, by simp, ?_, ?_, ?_⟩, ?_, ?_⟩
  . rw [List.append_assoc, hbehind, ← List.append_assoc, hsplit]
    exact hchars
  . simp only [List.forall_mem_append, List.forall_mem_cons]
    refine ⟨fun d hd => ?_, hc, fun d hd => ?_⟩
    . simpa [solid] using List.mem_rtakeWhile_imp hd
    . simpa [solid] using List.all_eq_true.mp List.all_takeWhile d hd
  . intro d hd
    obtain ⟨hne, rfl⟩ := List.mem_getLast?_eq_getLast hd
    simpa [solid] using List.rdropWhile_last_not solid as hne
  . intro d hd
    have := List.head?_dropWhile_not solid bs
    rw [hd] at this
    simpa [solid] using this
  . simp only
    omega
  . have := c.utf8Size_pos
    rw [stop, Text.byteSize_append, Text.byteSize_cons]
    simp only
    omega

/-! Tokens are located runs. -/

variable {part : Fragment} {t : Token}

theorem mem_tokens : t ∈ f.tokens ↔ ∃ r, f.IsRun r ∧ t = .ofFragment r := by
  rw [tokens, List.mem_map]
  constructor
  . rintro ⟨r, hr, rfl⟩
    exact ⟨r, mem_runs.mp hr, rfl⟩
  . rintro ⟨r, hr, rfl⟩
    exact ⟨r, mem_runs.mpr hr, rfl⟩

theorem IsRun.start_lt_stop (h : f.IsRun r) : r.start < r.stop := by
  obtain ⟨_, _, _, _, hne, _⟩ := h
  exact Fragment.start_lt_stop hne

/--
A token of a part stands in this part, and its symbol can be cut out of the whole at its span.
-/
theorem IsPart.exists_span (hpart : f.IsPart part) (ht : t ∈ part.tokens) :
    ∃ span, t.span = some span ∧ part.start ≤ span.start ∧ span.start < span.stop
      ∧ span.stop ≤ part.stop ∧ (f.slice? span).map text = some t.symbol := by
  obtain ⟨r, hr, rfl⟩ := mem_tokens.mp ht
  refine ⟨r.span, rfl, hr.isPart.start_le, hr.start_lt_stop, hr.isPart.stop_le, ?_⟩
  rw [(hpart.trans hr.isPart).slice?_eq]
  rfl

theorem tokens_pairwise (f : Fragment) :
    f.tokens.Pairwise fun t u => ∀ span ∈ t.span, ∀ next ∈ u.span, span.stop < next.start := by
  rw [tokens, List.pairwise_map]
  apply f.runs_pairwise.imp
  intro r s hlt span hspan next hnext
  cases hspan
  cases hnext
  exact hlt

theorem isBlank_of_outside (h : f.IsPart ⟨i, [c]⟩)
    (houtside : ∀ t ∈ f.tokens, ∀ span ∈ t.span, i < span.start ∨ span.stop ≤ i) :
    Text.isBlank c := by
  by_contra hc
  obtain ⟨r, hr, hle, hlt⟩ := exists_isRun h hc
  have := houtside _ (mem_tokens.mpr ⟨r, hr, rfl⟩) r.span rfl
  rw [span_start, span_stop] at this
  omega

end Fragment

/--
The tokens of a range are its maximal runs of characters that are not blank, in order, each located
where its symbol stands in the text as a whole; all other characters of the range are blank.
-/
theorem tokens_of_range (f : Fragment) (front inside rest : List Char)
    (h : f.chars = front ++ (inside ++ rest)) :
    let range : Span := ⟨f.start + Text.byteSize front, f.start + Text.byteSize (front ++ inside)⟩
    ∃ part : Fragment, f.slice range = .ok part ∧ part.chars = inside ∧ part.span = range
      ∧ (∀ t, t ∈ part.tokens ↔ ∃ r, part.IsRun r ∧ t = .ofFragment r)
      ∧ (∀ t ∈ part.tokens, ∃ span, t.span = some span ∧ range.start ≤ span.start
        ∧ span.start < span.stop ∧ span.stop ≤ range.stop
        ∧ (f.slice? span).map Fragment.text = some t.symbol)
      ∧ (part.tokens.Pairwise fun t u => ∀ span ∈ t.span, ∀ next ∈ u.span, span.stop < next.start)
      ∧ ∀ i c, part.IsPart ⟨i, [c]⟩ →
        (∀ t ∈ part.tokens, ∀ span ∈ t.span, i < span.start ∨ span.stop ≤ i) → Text.isBlank c := by
  intro range
  have hpart : f.IsPart ⟨f.start + Text.byteSize front, inside⟩ := ⟨front, rest, h, rfl⟩
  have hspan : (Fragment.mk (f.start + Text.byteSize front) inside).span = range := by
    rw [Fragment.span, Fragment.stop, Nat.add_assoc, ← Text.byteSize_append]
  refine ⟨_, Fragment.slice_eq_ok_iff.mpr ?_, rfl, hspan, fun t => Fragment.mem_tokens, ?_,
    Fragment.tokens_pairwise _, fun i c => Fragment.isBlank_of_outside⟩
  . rw [← hspan]
    exact hpart.slice?_eq
  . rw [← hspan]
    exact fun t ht => hpart.exists_span ht

theorem tokens_of_range_accented :
    let f := Fragment.whole "(é ü)\u3000a (ñ".toList
    f.chars = "(".toList ++ ("é ü)\u3000a".toList ++ " (ñ".toList)
      ∧ ∃ part : Fragment, f.slice ⟨1, 11⟩ = .ok part ∧ ⟨"ü)", some ⟨4, 7⟩⟩ ∈ part.tokens
        ∧ (f.slice? ⟨4, 7⟩).map Fragment.text = some "ü)" := by
  intro f
  have hchars : f.chars = "(".toList ++ ("é ü)\u3000a".toList ++ " (ñ".toList) := by
    decide +kernel
  obtain ⟨part, hslice, hinside, hspan, hmem, hlocated, _⟩ := tokens_of_range f _ _ _ hchars
  have hstart : part.start = 1 := congrArg Span.start hspan
  have hrun : part.IsRun ⟨4, "ü)".toList⟩ := by
    refine ⟨"é ".toList, "\u3000a".toList, ?_, ?_, by decide +kernel⟩
    . rw [hinside]
      decide +kernel
    . rw [hstart]
      decide +kernel
  have htoken : ⟨"ü)", some ⟨4, 7⟩⟩ ∈ part.tokens := (hmem _).mpr ⟨_, hrun, by decide +kernel⟩
  refine ⟨hchars, part, hslice, htoken, ?_⟩
  obtain ⟨_, hsome, _, _, _, hsymbol⟩ := hlocated _ htoken
  cases hsome
  exact hsymbol

end PddlOutline
