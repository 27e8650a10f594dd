import Mathlib.Control.Monad.Basic
import PddlOutline.Proofs.Located
import PddlOutline.Proofs.Success

/-!
This module contains the ranges of bytes that are cut out of a text while it is read. All of them
are in the text and end at boundaries of characters, whatever characters the text is made of, so no
reader ever fails because of a range.
-/

namespace PddlOutline
namespace Fragment

/--
Whether a span is in a fragment, with both ends at boundaries of characters.
-/
def Covers (f : Fragment) (span : Span) : Prop :=
  ∃ part, f.slice? span = some part

/--
What keywords are searched in: the whole text and the group of every action.
-/
inductive Searched (f : Fragment) : Fragment → Prop
  | whole : Searched f f
  | action {offset : Nat} {nesting : Nesting} {body : Fragment} (ho : offset ∈ f.places .action)
    (h : Section.delimit f .action offset = .ok nesting)
    (hbody : f.slice? nesting.outer.span = some body) : Searched f body

/--
The ranges that are cut out of a text.
-/
inductive Cuts (f : Fragment) : Span → Prop
  /-- What a keyword is searched in. -/
  | searched {g : Fragment} (hg : f.Searched g) : Cuts f g.span
  /-- What parentheses are matched in, of which no more than the searched part counts. -/
  | scanned {g : Fragment} (hg : f.Searched g) : Cuts f ⟨f.start, g.stop⟩
  /-- What is between a keyword and its value. -/
  | gap {g : Fragment} {k : Keyword} {offset : Nat} {nesting : Nesting} (hg : f.Searched g)
    (hk : k.form = .value) (ho : offset ∈ g.places k)
    (h : Section.delimit g k offset = .ok nesting) :
    Cuts f ⟨offset + k.size, nesting.outer.opening⟩
  /-- An action. -/
  | body {offset : Nat} {nesting : Nesting} (ho : offset ∈ f.places .action)
    (h : Section.delimit f .action offset = .ok nesting) : Cuts f nesting.outer.span
  /-- An action without its keyword, in which its name is. -/
  | definition {offset : Nat} {nesting : Nesting} (ho : offset ∈ f.places .action)
    (h : Section.delimit f .action offset = .ok nesting) :
    Cuts f ⟨nesting.outer.opening + Keyword.action.size, nesting.outer.closing + 1⟩
  /-- What the tokens of a section are in. -/
  | inside {g : Fragment} {k : Keyword} {s : Section} (hg : f.Searched g)
    (h : Section.first g k = .ok (some s)) : Cuts f s.nesting.outer.inside
  /-- An expression of a section. -/
  | expression {g : Fragment} {k : Keyword} {s : Section} {b : Group} (hg : f.Searched g)
    (h : Section.first g k = .ok (some s)) (hb : b ∈ s.nesting.groups) : Cuts f b.span
  /-- The name that an expression starts with. -/
  | name {g expr : Fragment} {k : Keyword} {s : Section} {b : Group} {name : List Char}
    (hg : f.Searched g) (h : Section.first g k = .ok (some s)) (hb : b ∈ s.nesting.groups)
    (hexpr : f.slice? b.span = some expr) (hname : Text.leadingName? expr.chars = some name) :
    Cuts f ⟨expr.start + 1 + Text.byteSize (expr.chars.tail.takeWhile Text.isBlank),
      expr.start + 1 + Text.byteSize (expr.chars.tail.takeWhile Text.isBlank ++ name)⟩

/--
The spans that tokens and errors are located at, from their first to their last byte.
-/
inductive Marks (f : Fragment) : Span → Prop
  | paren {g : Fragment} {k : Keyword} {offset i : Nat} {e : NestingError} (hg : f.Searched g)
    (ho : offset ∈ g.places k) (h : Nesting.first g offset = .error e) (hi : e.offset? = some i) :
    Marks f ⟨i, i + 1⟩
  | tag {g : Fragment} {k : Keyword} {offset : Nat} (hg : f.Searched g)
    (ho : offset ∈ g.places k) : Marks f ⟨offset, offset + k.size⟩
  | actionTag {offset : Nat} {nesting : Nesting} (ho : offset ∈ f.places .action)
    (h : Section.delimit f .action offset = .ok nesting) :
    Marks f ⟨nesting.outer.opening, nesting.outer.opening + Keyword.action.size⟩
  | body {offset : Nat} {nesting : Nesting} (ho : offset ∈ f.places .action)
    (h : Section.delimit f .action offset = .ok nesting) : Marks f nesting.outer.span
  | token {g inside : Fragment} {k : Keyword} {s : Section} {token : Token} {span : Span}
    (hg : f.Searched g) (h : Section.first g k = .ok (some s))
    (hinside : f.slice? s.nesting.outer.inside = some inside) (ht : token ∈ inside.tokens)
    (hspan : token.span = some span) : Marks f span

variable {f g part : Fragment} {k : Keyword} {offset : Nat} {span : Span}

theorem IsPart.covers (h : f.IsPart part) : f.Covers part.span :=
  ⟨part, h.slice?_eq⟩

theorem IsPart.covers_prefix (h : f.IsPart part) : f.Covers ⟨f.start, part.stop⟩ := by
  obtain ⟨front, rest, hchars, hstart⟩ := h
  have hprefix : f.IsPart ⟨f.start, front ++ part.chars⟩ := ⟨[], rest, by simp [hchars], rfl⟩
  have hstop : part.stop = f.start + Text.byteSize (front ++ part.chars) := by
    rw [stop, hstart, Text.byteSize_append, Nat.add_assoc]
  rw [hstop]
  exact hprefix.covers

theorem Searched.isPart (h : f.Searched g) : f.IsPart g := by
  cases h with
  | whole => exact .refl f
  | action _ _ hbody => exact .of_slice? hbody

end Fragment

namespace Fragment

variable {f g part : Fragment} {k : Keyword} {offset : Nat} {span : Span} {nesting : Nesting}

theorem isPart_of_delimit_action (ho : offset ∈ f.places .action)
    (h : Section.delimit f .action offset = .ok nesting) :
    nesting.outer.opening = offset ∧ ∃ tag behind, Keyword.action.Tag tag
      ∧ f.IsPart ⟨offset, tag ++ behind⟩
      ∧ (Fragment.mk offset (tag ++ behind)).span = nesting.outer.span := by
  obtain ⟨front, rest, tag, behind, t, hchars, hoffset, henclosed, htag, rfl⟩ :=
    Section.exists_of_delimit_block rfl ho h
  refine ⟨rfl, tag, behind, htag, ⟨front, rest, by simp [hchars, henclosed], hoffset⟩, ?_⟩
  rw [← henclosed, span, stop_of_enclosed]
  rfl

theorem covers_definition (ho : offset ∈ f.places .action)
    (h : Section.delimit f .action offset = .ok nesting) :
    f.Covers ⟨nesting.outer.opening + Keyword.action.size, nesting.outer.closing + 1⟩ := by
  obtain ⟨hopening, tag, behind, htag, hpart, hspan⟩ := isPart_of_delimit_action ho h
  have hstop : (Fragment.mk offset (tag ++ behind)).stop = nesting.outer.closing + 1 :=
    congrArg Span.stop hspan
  have hbehind : (Fragment.mk offset (tag ++ behind)).IsPart
      ⟨offset + Keyword.action.size, behind⟩ :=
    ⟨tag, [], by simp, by rw [htag.byteSize_eq]⟩
  have hcovers := (hpart.trans hbehind).covers
  rw [hopening, ← hstop, stop, Text.byteSize_append, htag.byteSize_eq, ← Nat.add_assoc]
  exact hcovers

theorem covers_gap (hk : k.form = .value) (hg : f.IsPart g) (ho : offset ∈ g.places k)
    (h : Section.delimit g k offset = .ok nesting) :
    f.Covers ⟨offset + k.size, nesting.outer.opening⟩ := by
  obtain ⟨front, tag, gap, rest, t, hchars, rfl, htag, rfl⟩ :=
    Section.exists_of_delimit_value hk ho h
  have hgap : g.IsPart ⟨g.start + Text.byteSize front + k.size, gap⟩ := by
    refine ⟨front ++ tag, t.enclosed ++ rest, by simp [hchars], ?_⟩
    rw [Text.byteSize_append, htag.byteSize_eq, Nat.add_assoc]
  have hcovers := (hg.trans hgap).covers
  rw [Text.byteSize_append, htag.byteSize_eq, ← Nat.add_assoc]
  exact hcovers

theorem isPart_expression {s : Section} {b : Group} (hg : f.IsPart g)
    (h : Section.first g k = .ok (some s)) (hb : b ∈ s.nesting.groups) :
    ∃ u : Forest, f.IsPart ⟨b.opening, u.enclosed⟩
      ∧ (Fragment.mk b.opening u.enclosed).span = b.span := by
  obtain ⟨_, hfragment, t, hholds⟩ := Section.exists_of_first_ok h
  obtain ⟨u, hpart, hb⟩ := hholds.isPart_of_mem_groups hb
  rw [hfragment] at hpart
  refine ⟨u, hg.trans hpart, ?_⟩
  rw [span, stop_of_enclosed, ← hb]
  rfl

theorem covers_inside {s : Section} (hg : f.IsPart g) (h : Section.first g k = .ok (some s)) :
    f.Covers s.nesting.outer.inside := by
  obtain ⟨_, hfragment, t, hholds⟩ := Section.exists_of_first_ok h
  have hslice := slice_eq_ok_iff.mp hholds.slice_inside
  rw [hfragment] at hslice
  have hcovers := (hg.trans (.of_slice? hslice)).covers
  rw [slice?_span hslice] at hcovers
  exact hcovers

theorem covers_name {expr : Fragment} {name : List Char} (hexpr : f.slice? span = some expr)
    (hname : Text.leadingName? expr.chars = some name) :
    f.Covers ⟨expr.start + 1 + Text.byteSize (expr.chars.tail.takeWhile Text.isBlank),
      expr.start + 1 + Text.byteSize (expr.chars.tail.takeWhile Text.isBlank ++ name)⟩ := by
  have hopening : '('.utf8Size = 1 := by decide
  -- The name stands behind the first parenthesis and the blanks that follow it.
  have hsplit : ∃ rest, expr.chars
      = '(' :: (expr.chars.tail.takeWhile Text.isBlank ++ (name ++ rest)) := by
    unfold Text.leadingName? at hname
    split at hname
    next inside hchars =>
      simp only [Option.ite_none_left_eq_some, Option.some.injEq] at hname
      refine ⟨(Text.trimStart inside).dropWhile Text.isAtom, ?_⟩
      rw [← hname.2, List.takeWhile_append_dropWhile, hchars, List.tail_cons, Text.trimStart,
        List.takeWhile_append_dropWhile]
    next => cases hname
  obtain ⟨rest, hchars⟩ := hsplit
  generalize expr.chars.tail.takeWhile Text.isBlank = blanks at hchars
  have hpart : expr.IsPart ⟨expr.start + 1 + Text.byteSize blanks, name⟩ := by
    refine ⟨'(' :: blanks, rest, hchars, ?_⟩
    rw [Text.byteSize_cons, hopening, Nat.add_assoc]
  have hcovers := ((IsPart.of_slice? hexpr).trans hpart).covers
  rw [Text.byteSize_append, ← Nat.add_assoc]
  exact hcovers

theorem Cuts.covers (h : f.Cuts span) : f.Covers span := by
  cases h with
  | searched hg => exact hg.isPart.covers
  | scanned hg => exact hg.isPart.covers_prefix
  | gap hg hk ho h => exact covers_gap hk hg.isPart ho h
  | body ho h =>
    obtain ⟨_, _, _, _, hpart, hspan⟩ := isPart_of_delimit_action ho h
    rw [← hspan]
    exact hpart.covers
  | definition ho h => exact covers_definition ho h
  | inside hg h => exact covers_inside hg.isPart h
  | expression hg h hb =>
    obtain ⟨u, hpart, hspan⟩ := isPart_expression hg.isPart h hb
    rw [← hspan]
    exact hpart.covers
  | name _ _ _ hexpr hname => exact covers_name hexpr hname

theorem exists_part_of_first_error {e : NestingError} {i : Nat} (ho : offset ∈ f.places k)
    (h : Nesting.first f offset = .error e) (hi : e.offset? = some i) :
    ∃ part, f.IsPart part ∧ part.chars ≠ [] ∧ part.span = ⟨i, i + 1⟩ := by
  obtain ⟨front, c, rest, hchars, rfl, _⟩ := Text.mem_occurrences.mp ho
  obtain ⟨gap, rest, hgap, _, hcases⟩ := Nesting.first_cases hchars
  -- The scan blames the first parenthesis that it comes to, on whichever side it is.
  have hparen : ∀ c after, c.utf8Size = 1 → rest = c :: after →
      i = f.start + Text.byteSize front + Text.byteSize gap →
        ∃ part, f.IsPart part ∧ part.chars ≠ [] ∧ part.span = ⟨i, i + 1⟩ := by
    intro c after hc hrest hi
    refine ⟨⟨i, [c]⟩, ⟨front ++ gap, after, by simp [hchars, hgap, hrest], ?_⟩,
      List.cons_ne_nil _ _, ?_⟩
    . rw [hi, Text.byteSize_append, Nat.add_assoc]
    . rw [Fragment.span, stop, Text.byteSize_cons, hc]
      rfl
  rcases hcases with hfirst | ⟨after, hrest, hfirst⟩ | ⟨after, hrest, hfirst⟩ | ⟨_, _, _, hfirst⟩
  . cases hfirst.symm.trans h
    cases hi
  . cases hfirst.symm.trans h
    exact hparen ')' after (by decide) hrest (Option.some.inj hi).symm
  . cases hfirst.symm.trans h
    exact hparen '(' after (by decide) hrest (Option.some.inj hi).symm
  . cases hfirst.symm.trans h

theorem exists_part_of_mem_places (ho : offset ∈ f.places k) :
    ∃ part, f.IsPart part ∧ part.chars ≠ [] ∧ part.span = ⟨offset, offset + k.size⟩ := by
  obtain ⟨tag, htag, hpart⟩ := exists_tag_of_mem_places ho
  refine ⟨_, hpart, htag.ne_nil, ?_⟩
  rw [Fragment.span, stop, htag.byteSize_eq]

theorem Marks.exists_part (h : f.Marks span) :
    ∃ part, f.IsPart part ∧ part.chars ≠ [] ∧ part.span = span := by
  cases h with
  | paren hg ho h hi =>
    obtain ⟨part, hpart, hne, hspan⟩ := exists_part_of_first_error ho h hi
    exact ⟨part, hg.isPart.trans hpart, hne, hspan⟩
  | tag hg ho =>
    obtain ⟨part, hpart, hne, hspan⟩ := exists_part_of_mem_places ho
    exact ⟨part, hg.isPart.trans hpart, hne, hspan⟩
  | actionTag ho h =>
    rw [(isPart_of_delimit_action ho h).1]
    exact exists_part_of_mem_places ho
  | body ho h =>
    obtain ⟨_, _, _, htag, hpart, hspan⟩ := isPart_of_delimit_action ho h
    exact ⟨_, hpart, by simp [htag.ne_nil], hspan⟩
  | token hg h hinside ht hspan =>
    obtain ⟨r, hr, rfl⟩ := List.mem_map.mp ht
    cases hspan
    have hrun := isRun_of_mem_runs hr
    obtain ⟨_, _, _, _, hne, _⟩ := id hrun
    exact ⟨r, (IsPart.of_slice? hinside).trans hrun.isPart, hne, rfl⟩

theorem Marks.covers (h : f.Marks span) : span.start < span.stop ∧ f.Covers span := by
  obtain ⟨part, hpart, hne, rfl⟩ := h.exists_part
  exact ⟨start_lt_stop hne, hpart.covers⟩

end Fragment

theorem ReadError.IsLocated.covers {f : Fragment} {e : ReadError} (h : e.IsLocated f) :
    (∀ span, e ≠ .outOfRange span)
      ∧ ∃ span, e.span? = some span ∧ span.start < span.stop ∧ f.Covers span := by
  obtain ⟨part, hspan, hlt, hslice, hdescribes⟩ := h
  refine ⟨?_, part.span, hspan, hlt, part, hslice⟩
  rintro span rfl
  exact hdescribes

/--
No text makes a reader cut out what is not there: every range is in the text and ends at boundaries
of characters, and so is the span of every token and of every error, none of which is empty.
-/
theorem reading_in_range (d : Document) :
    (∀ span, d.fragment.Cuts span → d.fragment.Covers span)
    ∧ (∀ span, d.fragment.Marks span → span.start < span.stop ∧ d.fragment.Covers span)
    ∧ ∀ e, (Domain.read d).outcome = .error e ∨ (Problem.read d).outcome = .error e →
      (∀ span, e ≠ .outOfRange span)
        ∧ ∃ span, e.span? = some span ∧ span.start < span.stop ∧ d.fragment.Covers span := by
  refine ⟨fun span h => h.covers, fun span h => h.covers, ?_⟩
  rintro e (h | h)
  . exact (Domain.isLocated_of_read_error h).covers
  . exact (Problem.isLocated_of_read_error h).covers

theorem reading_in_range_accented :
    let f := (Document.ofString
      "(:action ö :parameters (?ü) :precondition () :effect é (ç))").fragment
    f.Covers ⟨54, 58⟩ ∧ (47 < 54 ∧ f.Covers ⟨47, 54⟩)
      ∧ ∃ span, some (Span.mk 47 54) = some span ∧ span.start < span.stop ∧ f.Covers span := by
  intro f
  have haction : 0 ∈ f.places .action := by
    decide +kernel
  have hgroup : Section.delimit f .action 0
      = .ok ⟨⟨0, 62⟩, [⟨24, 28⟩, ⟨44, 45⟩, ⟨58, 61⟩]⟩ := by
    decide +kernel
  have hbody : f.Searched f := .action haction hgroup (by decide +kernel)
  have heffect : 47 ∈ f.places .effect := by
    decide +kernel
  have hdelimit : Section.delimit f .effect 47 = .ok ⟨⟨58, 61⟩, []⟩ := by
    decide +kernel
  obtain ⟨hcuts, hmarks, herrors⟩ := reading_in_range (Document.ofString
    "(:action ö :parameters (?ü) :precondition () :effect é (ç))")
  refine ⟨?_, ?_, ?_⟩
  . exact hcuts _ (.gap hbody rfl heffect hdelimit)
  . exact hmarks _ (.tag hbody heffect)
  . refine (herrors (.malformed (.missingValue .effect) (some ⟨47, 54⟩)) (.inl ?_)).2
    decide +kernel

end PddlOutline
