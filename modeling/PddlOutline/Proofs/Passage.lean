import PddlOutline.Diagnostic.Render
import PddlOutline.Proofs.LetterCase.Text
import PddlOutline.Proofs.Located
import PddlOutline.Proofs.Text.Position

/-!
This module contains passages, the parts of a document that errors are located at, and what a
diagnostic takes from the document to show a passage: the rows from its first character to its last
one, and the places on these rows where it starts and stops.
-/

namespace PddlOutline

/--
A part of a document of which the first and the last character are not blank.
-/
structure Passage (d : Document) where
  front : List Char
  part : List Char
  rest : List Char
  chars_eq : d.chars = front ++ (part ++ rest)
  solid_head : ∃ c ∈ part.head?, ¬ Text.isBlank c
  solid_last : ∃ c ∈ part.getLast?, ¬ Text.isBlank c

namespace Passage

variable {d : Document} (p : Passage d)

def span : Span :=
  ⟨Text.byteSize p.front, Text.byteSize (p.front ++ p.part)⟩

/--
The number of line feeds before the first character.
-/
def firstRow : Nat :=
  p.front.count '\n'

/--
The number of line feeds before the last character.
-/
def lastRow : Nat :=
  (p.front ++ p.part.dropLast).count '\n'

/--
The characters before the passage on its first row.
-/
def before : List Char :=
  Text.lastLine p.front

/--
The rows from the one with the first character to the one with the last.
-/
def rows : List (List Char) :=
  ((Text.lines d.chars).drop p.firstRow).take (p.lastRow + 1 - p.firstRow)

/--
A part of a document can be told from its span.
-/
theorem ext_span {p q : Passage d} (h : p.span = q.span) : p = q := by
  obtain ⟨front, part, rest, hp, _, _⟩ := p
  obtain ⟨front', part', rest', hq, _, _⟩ := q
  obtain ⟨hstart, hstop⟩ := Span.mk.inj h
  have hchars : front ++ (part ++ rest) = front' ++ (part' ++ rest') := hp.symm.trans hq
  have hfront := Text.dropBytes?_append front (part ++ rest)
  rw [hchars, hstart, Text.dropBytes?_append, Option.some.injEq] at hfront
  rw [← hfront, List.append_cancel_right_eq] at hchars
  subst hchars
  rw [Text.byteSize_append, Text.byteSize_append, Nat.add_left_cancel_iff] at hstop
  have hpart := Text.dropBytes?_append part rest
  rw [← hfront, hstop, Text.dropBytes?_append, Option.some.injEq] at hpart
  rw [← hpart, List.append_cancel_right_eq] at hfront
  subst hfront hpart
  rfl

theorem exists_eq_concat : ∃ part c, p.part = part ++ [c] ∧ ¬ Text.isBlank c := by
  obtain ⟨c, hc, hsolid⟩ := p.solid_last
  exact ⟨p.part.dropLast, c, (List.dropLast_append_getLast? c hc).symm, hsolid⟩

theorem isPlace_start : Text.IsPlace p.front (p.part ++ p.rest) := by
  obtain ⟨c, hc, hsolid⟩ := p.solid_head
  obtain ⟨part, hpart⟩ := List.head?_eq_some_iff.mp hc
  have hne : p.part ++ p.rest ≠ [] := by
    simp [hpart]
  refine ⟨by simp [hpart], fun _ => hne, fun _ => ?_⟩
  rw [hpart, List.cons_append, List.head?_cons, Ne, Option.some.injEq]
  rintro rfl
  exact hsolid rfl

theorem isPlace_stop : Text.IsPlace (p.front ++ p.part) p.rest := by
  obtain ⟨part, c, hpart, hsolid⟩ := p.exists_eq_concat
  have hlast : (p.front ++ p.part).getLast? = some c := by
    simp [hpart]
  rw [Text.IsPlace, hlast]
  refine ⟨by simp [hpart], ?_, ?_⟩
  . intro hc
    cases hc
    exact absurd rfl hsolid
  . intro hc
    cases hc
    exact absurd rfl hsolid

theorem count_stop : (p.front ++ p.part).count '\n' = p.lastRow := by
  obtain ⟨part, c, hpart, hsolid⟩ := p.exists_eq_concat
  have hc : c ≠ '\n' := by
    rintro rfl
    exact hsolid rfl
  rw [lastRow, hpart, List.dropLast_concat, ← List.append_assoc, List.count_append,
    List.count_singleton, beq_false_of_ne hc]
  rfl

theorem firstRow_le : p.firstRow ≤ p.lastRow := by
  rw [firstRow, lastRow, List.count_append]
  exact Nat.le_add_right _ _

theorem length_rows : p.rows.length = p.lastRow + 1 - p.firstRow := by
  obtain ⟨more, hrow⟩ := Text.exists_line_of_isPlace p.isPlace_stop
  rw [List.append_assoc, ← p.chars_eq, p.count_stop] at hrow
  obtain ⟨hlt, _⟩ := List.getElem?_eq_some_iff.mp hrow
  have hle := p.firstRow_le
  rw [rows, List.length_take, List.length_drop]
  omega

theorem newline_not_mem (h : p.firstRow = p.lastRow) : '\n' ∉ p.part := by
  rw [← p.count_stop, List.count_append] at h
  exact List.count_eq_zero.mp (by rw [firstRow] at h; omega)

/--
The row of a passage that is on a single one.
-/
theorem exists_rows_eq (h : p.firstRow = p.lastRow) :
    ∃ more, p.rows = [p.before ++ (p.part ++ more)] := by
  obtain ⟨more, hrow⟩ := Text.exists_line_of_isPlace p.isPlace_stop
  rw [List.append_assoc, ← p.chars_eq, p.count_stop, Text.lastLine_append (p.newline_not_mem h),
    List.append_assoc] at hrow
  refine ⟨more, ?_⟩
  rw [rows, h, Nat.add_sub_cancel_left]
  obtain ⟨hlt, hget⟩ := List.getElem?_eq_some_iff.mp hrow
  rw [List.drop_eq_getElem_cons hlt, hget]
  rfl

theorem solid_of_forall {part : List Char} (hne : part ≠ []) (h : ∀ c ∈ part, ¬ Text.isBlank c) :
    (∃ c ∈ part.head?, ¬ Text.isBlank c) ∧ ∃ c ∈ part.getLast?, ¬ Text.isBlank c :=
  ⟨⟨part.head hne, List.head?_eq_some_head hne, h _ (List.head_mem hne)⟩,
    ⟨part.getLast hne, List.getLast?_eq_some_getLast hne, h _ (List.getLast_mem hne)⟩⟩

theorem solid_of_describes {f part : Fragment} {e : ReadError} (h : e.Describes f part) :
    (∃ c ∈ part.chars.head?, ¬ Text.isBlank c)
      ∧ ∃ c ∈ part.chars.getLast?, ¬ Text.isBlank c := by
  have htag : ∀ {k : Keyword}, k.Tag part.chars → (∃ c ∈ part.chars.head?, ¬ Text.isBlank c)
      ∧ ∃ c ∈ part.chars.getLast?, ¬ Text.isBlank c := by
    intro k htag
    refine solid_of_forall htag.ne_nil fun c hc => ?_
    rw [← Text.isBlank_toLower]
    exact (Keyword.of_mem_chars (htag.toLower_mem hc)).2.2.1
  have htoken : f.IsTokenOf part → (∃ c ∈ part.chars.head?, ¬ Text.isBlank c)
      ∧ ∃ c ∈ part.chars.getLast?, ¬ Text.isBlank c := by
    rintro ⟨_, _, _, _, hrun⟩
    obtain ⟨_, _, _, _, hne, hsolid, _⟩ := hrun
    exact solid_of_forall hne hsolid
  cases e with
  | missingSection k span =>
    obtain ⟨_, _, ⟨t, ht⟩, _⟩ := h
    have hlast : t.enclosed.getLast? = some ')' := by
      rw [Forest.enclosed, ← List.cons_append, List.getLast?_concat]
    rw [ht]
    exact ⟨⟨'(', rfl, by decide⟩, ⟨')', hlast, by decide⟩⟩
  | malformed reason span =>
    cases reason with
    | unopened =>
      have hchars : part.chars = [')'] := h
      rw [hchars]
      exact ⟨⟨')', rfl, by decide⟩, ⟨')', rfl, by decide⟩⟩
    | unclosed =>
      rw [h.1]
      exact ⟨⟨'(', rfl, by decide⟩, ⟨'(', rfl, by decide⟩⟩
    | missingValue k => exact htag h.2
    | missingActionName => exact htag h
    | missingType => exact htoken h.1
    | expectedType => exact htoken h.1
    | orphanType => exact htoken h.1
  | outOfRange span => exact h.elim

theorem exists_of_isLocated {e : ReadError} (h : e.IsLocated d.fragment) :
    ∃ p : Passage d, e.span? = some p.span := by
  obtain ⟨part, hspan, _, hslice, hdescribes⟩ := h
  obtain ⟨front, rest, hchars, hstart⟩ := Fragment.IsPart.of_slice? hslice
  obtain ⟨hhead, hlast⟩ := solid_of_describes hdescribes
  refine ⟨⟨front, part.chars, rest, hchars, hhead, hlast⟩, ?_⟩
  have hfront : part.start = Text.byteSize front := by
    rw [hstart]
    exact Nat.zero_add _
  rw [hspan, Fragment.span, Fragment.stop, hfront, span, Text.byteSize_append]

/--
What a diagnostic at a passage takes from the document.
-/
def excerpt (label : String) : Excerpt where
  source := d.source
  first := ⟨p.firstRow, p.before, false⟩
  stop := ⟨p.lastRow, Text.lastLine (p.front ++ p.part), false⟩
  rows := p.rows
  label := label

end Passage

theorem Annotation.excerpt?_passage {d : Document} (p : Passage d) (label : String) :
    Annotation.excerpt? ⟨d, p.span, label⟩ = some (p.excerpt label) := by
  have hstart := Text.position?_of_isPlace p.isPlace_start
  have hstop := Text.position?_of_isPlace p.isPlace_stop
  rw [← p.chars_eq] at hstart
  rw [List.append_assoc, ← p.chars_eq, p.count_stop] at hstop
  simp only [excerpt?, Passage.span, hstart, hstop]
  rw [Passage.excerpt, Passage.rows, Text.lines, ← List.map_drop, ← List.map_take]
  rfl

end PddlOutline
