import Mathlib.Data.List.Forall2
import Mathlib.Data.List.TakeWhile
import PddlOutline.Proofs.Folding
import PddlOutline.Proofs.Text.Display

/-!
This module contains which lines of an excerpt show the rows of the text. They show all rows if
there are few of them. Of many rows they show the first ones and the last ones, and dots stand for
those in between.
-/

namespace PddlOutline
namespace Excerpt

def pad (n : Nat) : String :=
  String.ofList (List.replicate n ' ')

/--
The number of a row, which is counted from 0 in a text and from 1 by readers.
-/
def number (width index : Nat) : String :=
  pad (width - (toString (index + 1)).length) ++ toString (index + 1)

/--
A line that has a part of a text behind its head.
-/
def headed (head : String) (shown : List Char) : String :=
  match shown with
  | [] => head
  | shown => head ++ " " ++ String.ofList shown

/--
Whether a printed line shows a row of the text, or stands for rows that are left out.
-/
inductive Shows (width : Nat) : Option (List Char × Nat) → String → Prop
  | row {chars shown : List Char} {index : Nat} {marks : String}
    (hmarks : marks = "" ∨ marks = " /" ∨ marks = "  " ∨ marks = " |")
    (h : Text.Depicts chars shown) :
    Shows width (some (chars, index)) (headed (number width index ++ " |" ++ marks) shown)
  | gap : Shows width none ("..." ++ pad width ++ "|")

/--
Whether a printed line starts with a number or with dots.
-/
def isSource (line : String) : Bool :=
  match (line.toList.dropWhile (· == ' ')).head? with
  | some c => c.isDigit || c == '.'
  | none => false

theorem spaces_eq_pad (n : Nat) : spaces n = pad n := rfl

theorem toList_pad (n : Nat) : (pad n).toList = List.replicate n ' ' := by
  rw [pad, String.toList_ofList]

theorem length_pad (n : Nat) : (pad n).length = n := by
  rw [pad, String.length_ofList, List.length_replicate]

theorem isSource_pad (n : Nat) (line : String) : isSource (pad n ++ line) = isSource line := by
  have hall : ∀ c ∈ List.replicate n ' ', (c == ' ') = true := by
    intro c hc
    rw [(List.mem_replicate.mp hc).2]
    rfl
  rw [isSource, String.toList_append, toList_pad, List.dropWhile_append_of_pos hall]
  rfl

theorem not_isSource_unnumbered (x : Excerpt) (line : String) :
    ¬ isSource (x.unnumbered ++ line) := by
  rw [unnumbered, spaces_eq_pad, String.append_assoc, isSource_pad, isSource,
    String.toList_append]
  exact Bool.false_ne_true

theorem number_length (index : Nat) :
    number (toString (index + 1)).length index = toString (index + 1) := by
  rw [number, Nat.sub_self]
  exact String.empty_append

theorem isSource_number (width index : Nat) (line : String) :
    isSource (number width index ++ line) = true := by
  have hlist : (toString (index + 1)).toList = Nat.toDigits 10 (index + 1) := by
    rw [Nat.toString_eq_repr, Nat.toList_repr]
  rw [number, String.append_assoc, isSource_pad, isSource, String.toList_append, hlist]
  obtain ⟨c, digits, hdigits⟩ := List.exists_cons_of_ne_nil
    (List.length_pos_iff.mp (Nat.length_toDigits_pos : 0 < (Nat.toDigits 10 (index + 1)).length))
  have hmem : c ∈ Nat.toDigits 10 (index + 1) := by
    rw [hdigits]
    exact List.mem_cons_self
  have hc : c.isDigit := Nat.isDigit_of_mem_toDigits (by decide) (by decide) hmem
  have hspace : ¬ (c == ' ') = true := by
    intro h
    rw [beq_iff_eq.mp h] at hc
    exact absurd hc (by decide)
  have hdrop : ∀ cs, (c :: cs).dropWhile (· == ' ') = c :: cs := by
    intro cs
    exact List.dropWhile_cons_of_neg hspace
  rw [hdigits, List.cons_append, hdrop, List.head?_cons]
  simp only [hc, Bool.true_or]

theorem exists_headed_eq (head : String) (shown : List Char) :
    ∃ behind, headed head shown = head ++ behind := by
  cases shown with
  | nil => exact ⟨"", String.append_empty.symm⟩
  | cons c shown => exact ⟨" " ++ String.ofList (c :: shown), String.append_assoc⟩

theorem Shows.isSource {width : Nat} {row : Option (List Char × Nat)} {line : String}
    (h : Shows width row line) : isSource line := by
  cases h with
  | @row _ shown index marks =>
    obtain ⟨behind, hline⟩ := exists_headed_eq (number width index ++ " |" ++ marks) shown
    rw [hline, String.append_assoc, String.append_assoc]
    exact isSource_number _ _ _
  | gap =>
    rw [String.append_assoc, Excerpt.isSource, String.toList_append]
    rfl

theorem forall_isSource {width : Nat} {rows : List (Option (List Char × Nat))}
    {lines : List String} (h : List.Forall₂ (Shows width) rows lines) :
    ∀ line ∈ lines, isSource line := by
  induction h with
  | nil => exact nofun
  | cons hshows _ ih => exact List.forall_mem_cons.mpr ⟨hshows.isSource, ih⟩

theorem append_shown_eq (head : String) (shown : List Char) :
    head ++ (if (String.ofList shown).isEmpty then "" else " " ++ String.ofList shown)
      =
    headed head shown := by
  cases shown with
  | nil => exact String.append_empty
  | cons c cs =>
    have hne : ¬ (String.ofList (c :: cs)).isEmpty := by
      rw [String.isEmpty_iff, ← String.toList_inj, String.toList_ofList]
      exact List.cons_ne_nil c cs
    rw [if_neg hne, ← String.append_assoc]
    rfl

theorem numbered_eq {x : Excerpt} {index : Nat}
    (h : (toString (index + 1)).length ≤ x.numberWidth) (marks : String) (row : List Char) :
    x.numbered index marks row
      =
    headed (number x.numberWidth index ++ " |" ++ marks) (Text.display row) := by
  have hlength : (number x.numberWidth index).length = x.numberWidth := by
    rw [number, String.length_append, length_pad, Nat.sub_add_cancel h]
  have hbar : ∀ s, s ++ spaces 1 ++ "|" = s ++ " |" := by
    intro s
    rw [String.append_assoc]
    rfl
  rw [numbered, spaces_eq_pad, ← number]
  simp only [hlength, Nat.add_sub_cancel_left, append_shown_eq]
  rw [hbar]

/-! Which of the lines of an excerpt show its rows. -/

section Rows

variable {x : Excerpt} (hwidth : ∀ i < x.rows.length + x.first.row,
  (toString (i + 1)).length ≤ x.numberWidth)

include hwidth

theorem shows_numbered {index : Nat} (h : index < x.rows.length + x.first.row) {marks : String}
    (hmarks : marks = "" ∨ marks = " /" ∨ marks = "  " ∨ marks = " |") (row : List Char) :
    Shows x.numberWidth (some (row, index)) (x.numbered index marks row) := by
  rw [numbered_eq (hwidth index h)]
  exact .row hmarks (Text.depicts_display row)

theorem forall₂_followingLines :
    List.Forall₂ (Shows x.numberWidth)
      (kept (headSize x.rows - 1) (tailSize x.rows) (x.rows.zipIdx x.first.row).tail)
      x.followingLines := by
  have hshows : ∀ zs ⊆ (x.rows.zipIdx x.first.row).tail,
      List.Forall₂ (Shows x.numberWidth) (zs.map some)
        (zs.map fun z => x.numbered z.2 " |" z.1) := by
    intro zs hzs
    rw [List.forall₂_map_left_iff, List.forall₂_map_right_iff, List.forall₂_same]
    intro z hz
    have hlt := List.snd_lt_of_mem_zipIdx (List.mem_of_mem_tail (hzs hz))
    exact shows_numbered hwidth hlt (by simp) z.1
  rw [followingLines, kept]
  simp only [List.length_map]
  split
  . exact hshows _ (List.Subset.refl _)
  . rw [← List.map_take, ← List.map_drop]
    refine List.rel_append (hshows _ (List.take_subset _ _)) ?_
    exact .cons .gap (hshows _ (List.drop_subset _ _))

theorem exists_source_singleLines (row : List Char) (h : x.rows ≠ []) :
    ∃ line, (x.singleLines row).filter isSource = [line]
      ∧ Shows x.numberWidth (some (row, x.first.row)) line := by
  have hlt : x.first.row < x.rows.length + x.first.row :=
    Nat.lt_add_of_pos_left (List.length_pos_iff.mpr h)
  have hshows := shows_numbered hwidth hlt (.inl rfl) row
  refine ⟨_, ?_, hshows⟩
  simp only [singleLines]
  rw [List.filter_cons_of_pos hshows.isSource, List.filter_cons_of_neg, List.filter_nil]
  simp only [String.append_assoc]
  exact x.not_isSource_unnumbered _

theorem exists_source_openingLines (row : List Char) (h : x.rows ≠ []) :
    ∃ line, (x.openingLines row).filter isSource = [line]
      ∧ Shows x.numberWidth (some (row, x.first.row)) line := by
  have hlt : x.first.row < x.rows.length + x.first.row :=
    Nat.lt_add_of_pos_left (List.length_pos_iff.mpr h)
  unfold openingLines
  split
  . have hshows := shows_numbered hwidth hlt (.inr (.inl rfl)) row
    exact ⟨_, by rw [List.filter_cons_of_pos hshows.isSource, List.filter_nil], hshows⟩
  . have hshows := shows_numbered hwidth hlt (.inr (.inr (.inl rfl))) row
    have hmark : ¬ isSource (x.unnumbered ++ "  " ++ underscores (x.startColumn + 1) ++ "^") := by
      rw [String.append_assoc, String.append_assoc]
      exact x.not_isSource_unnumbered _
    refine ⟨_, ?_, hshows⟩
    rw [List.filter_cons_of_pos hshows.isSource, List.filter_cons_of_neg hmark, List.filter_nil]

theorem exists_source_bodyLines {row next : List Char} {rows : List (List Char)}
    (h : x.rows = row :: next :: rows) :
    ∃ line, x.bodyLines.filter isSource = line :: x.followingLines
      ∧ Shows x.numberWidth (some (row, x.first.row)) line := by
  obtain ⟨line, hopening, hshows⟩ := exists_source_openingLines hwidth row (by simp [h])
  have hfollowing := forall_isSource (forall₂_followingLines hwidth)
  have hclosing : ¬ isSource x.closingLine := by
    simp only [closingLine, String.append_assoc]
    exact x.not_isSource_unnumbered _
  refine ⟨line, ?_, hshows⟩
  rw [bodyLines, h]
  simp only [List.filter_append]
  rw [hopening, List.filter_eq_self.mpr hfollowing, List.filter_cons_of_neg hclosing,
    List.filter_nil, List.append_nil]
  rfl

/--
The lines that show the text are those of its rows, in order, but for what is left out in between.
-/
theorem forall₂_source (h : x.rows ≠ []) :
    List.Forall₂ (Shows x.numberWidth)
      (kept (headSize x.rows) (tailSize x.rows) (x.rows.zipIdx x.first.row))
      ((x.unnumbered :: x.bodyLines).filter isSource) := by
  have hgutter : ¬ isSource x.unnumbered := by
    rw [← String.append_empty (s := x.unnumbered)]
    exact x.not_isSource_unnumbered ""
  rw [List.filter_cons_of_neg hgutter]
  cases hrows : x.rows with
  | nil => exact absurd hrows h
  | cons row rows =>
    cases rows with
    | nil =>
      obtain ⟨line, hsingle, hshows⟩ := exists_source_singleLines hwidth row h
      have hbody : x.bodyLines.filter isSource = [line] := by
        rw [bodyLines, hrows]
        exact hsingle
      rw [hbody]
      exact .cons hshows .nil
    | cons next rows =>
      obtain ⟨line, hbody, hshows⟩ := exists_source_bodyLines hwidth hrows
      -- The first row is never left out, so it is split off from those that are kept.
      have hhead : headSize (row :: next :: rows) = headSize x.rows - 1 + 1 := by
        rw [← hrows, Nat.sub_add_cancel (isHead_headSize x.rows).pos]
      have hzip : (row :: next :: rows).zipIdx x.first.row
          = (row, x.first.row) :: (x.rows.zipIdx x.first.row).tail := by
        rw [hrows]
        rfl
      rw [hbody, hhead, hzip, kept_cons, ← hrows]
      exact .cons hshows (forall₂_followingLines hwidth)

/--
On a single row, carets stand under the columns of the characters that belong to the span.
-/
theorem unnumbered_bodyLines {part more : List Char}
    (hrow : x.rows = [x.first.before ++ (part ++ more)])
    (hstop : x.stop.before = x.first.before ++ part)
    (hnarrow : ∀ c ∈ x.first.before ++ part, ¬ Text.isWide c) :
    x.unnumbered :: x.bodyLines
      = [pad x.numberWidth ++ " |",
        headed (number x.numberWidth x.first.row ++ " |")
          (Text.display x.first.before ++ (Text.display part ++ Text.display more)),
        pad x.numberWidth ++ " | " ++ pad (Text.columns (Text.display x.first.before))
          ++ String.ofList (List.replicate (max 1 (Text.columns (Text.display part))) '^')
          ++ x.labelText] := by
  have hfirst : (toString (x.first.row + 1)).length ≤ x.numberWidth := by
    apply hwidth
    rw [hrow]
    exact Nat.lt_add_of_pos_left Nat.one_pos
  obtain ⟨hbefore, hpart⟩ := List.forall_mem_append.mp hnarrow
  have hstart : x.startColumn = Text.columns (Text.display x.first.before) := by
    rw [startColumn, Text.width_eq_columns hbefore, (Text.depicts_display _).columns_eq]
  have hcolumns : Text.width x.stop.before - x.startColumn = Text.columns (Text.display part) := by
    rw [hstop, Text.width_append, startColumn, Nat.add_sub_cancel_left,
      Text.width_eq_columns hpart, (Text.depicts_display _).columns_eq]
  have hbar : x.unnumbered ++ " " = pad x.numberWidth ++ " | " := String.append_assoc
  rw [bodyLines, hrow]
  simp only [singleLines]
  rw [hcolumns, numbered_eq hfirst, String.append_empty, hstart, hbar, Text.display_append,
    Text.display_append]
  rfl

end Rows

theorem plain_eq_self {text : String} (h : '\x1b' ∉ text.toList) : plain text = text := by
  rw [plain, Text.uncolored_eq_self h, String.ofList_toList]

theorem labelText_eq {x : Excerpt} (hne : x.label ≠ "")
    (h : '\x1b' ∉ x.label.toList) : x.labelText = " " ++ x.label := by
  have hempty : ¬ x.label.isEmpty := fun hempty => hne (String.isEmpty_iff.mp hempty)
  rw [labelText, if_neg hempty, plain_eq_self h]

/--
Whether a character is printed to mark where a span starts and stops.
-/
def IsMark (c : Char) : Prop :=
  c = ' ' ∨ c = '|' ∨ c = '_' ∨ c = '^'

/--
The label stands in the last line, and nothing but marks stands before it.
-/
theorem exists_marks {x : Excerpt} (h : x.rows ≠ []) :
    ∃ marks, x.bodyLines.getLast? = some (marks ++ x.labelText) ∧ ∀ c ∈ marks.toList, IsMark c := by
  cases hrows : x.rows with
  | nil => exact absurd hrows h
  | cons row rows =>
    cases rows with
    | nil =>
      rw [bodyLines, hrows]
      refine ⟨_, rfl, ?_⟩
      intro c hc
      simp [unnumbered, spaces] at hc
      rw [IsMark]
      grind
    | cons next rows =>
      have hlast : x.bodyLines.getLast? = some x.closingLine := by
        rw [bodyLines, hrows]
        exact List.getLast?_concat
      refine ⟨_, hlast, ?_⟩
      intro c hc
      simp [unnumbered, spaces, underscores] at hc
      rw [IsMark]
      grind

end Excerpt
end PddlOutline
