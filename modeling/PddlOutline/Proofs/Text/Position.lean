import Mathlib.Data.List.DropRight
import PddlOutline.Proofs.Text.Lines
import PddlOutline.Text.Position

/-!
This module contains where the places of a text are in its rows. The row of a place is the number of
line feeds before it, and what comes before it on its row is what comes behind the last of them. A
place between a carriage return and a line feed is none that a row has, and neither is the place
behind a line feed at the end of a text.
-/

namespace PddlOutline
namespace Text

/--
The characters behind the last line feed.
-/
def lastLine (cs : List Char) : List Char :=
  cs.rtakeWhile (· ≠ '\n')

theorem lastLine_concat (cs : List Char) (c : Char) :
    lastLine (cs ++ [c]) = if c = '\n' then [] else lastLine cs ++ [c] := by
  rw [lastLine, List.rtakeWhile_concat]
  by_cases hc : c = '\n'
  . simp [hc]
  . simp [hc, lastLine]

theorem lastLine_newline (as bs : List Char) : lastLine (as ++ '\n' :: bs) = lastLine bs := by
  induction bs using List.reverseRecOn with
  | nil => rw [lastLine_concat, if_pos rfl, lastLine, List.rtakeWhile_nil]
  | append_singleton bs c ih =>
    rw [← List.cons_append, ← List.append_assoc, lastLine_concat, lastLine_concat, ih]

theorem lastLine_append {bs : List Char} (h : '\n' ∉ bs) (as : List Char) :
    lastLine (as ++ bs) = lastLine as ++ bs := by
  induction bs using List.reverseRecOn with
  | nil => rw [List.append_nil, List.append_nil]
  | append_singleton bs c ih =>
    rw [List.mem_append, List.mem_singleton, not_or] at h
    rw [← List.append_assoc, lastLine_concat, if_neg (Ne.symm h.2), ih h.1, List.append_assoc]

theorem lastLine_of_not_mem {cs : List Char} (h : '\n' ∉ cs) : lastLine cs = cs :=
  lastLine_append h []

/--
Whether a row has the place between two parts of a text.
-/
def IsPlace (front rest : List Char) : Prop :=
  front ++ rest ≠ [] ∧ (front.getLast? = some '\n' → rest ≠ [])
    ∧ (front.getLast? = some '\r' → rest.head? ≠ some '\n')

theorem exists_row_of_line {line rest : List Char} (h : '\n' ∉ line) (hplace : IsPlace line rest) :
    ∃ more ending others, rows (line ++ rest) = ⟨line ++ more, ending⟩ :: others
      ∧ (others ≠ [] → ending ≠ []) := by
  by_cases hnewline : '\n' ∈ rest
  . obtain ⟨more, behind, rfl, hmore⟩ := List.eq_append_cons_of_mem hnewline
    have hline : '\n' ∉ line ++ more := by
      rw [List.mem_append, not_or]
      exact ⟨h, hmore⟩
    rw [← List.append_assoc, rows_newline hline, Row.ofLine]
    split
    next hreturn =>
      have hne : more ≠ [] := by
        rintro rfl
        rw [List.append_nil] at hreturn
        exact hplace.2.2 hreturn rfl
      exact ⟨more.dropLast, ['\r', '\n'], rows behind, by rw [List.dropLast_append_of_ne_nil hne],
        fun _ => List.cons_ne_nil _ _⟩
    next => exact ⟨more, ['\n'], rows behind, rfl, fun _ => List.cons_ne_nil _ _⟩
  . have hline : '\n' ∉ line ++ rest := by
      rw [List.mem_append, not_or]
      exact ⟨h, hnewline⟩
    exact ⟨rest, [], [], rows_of_not_mem hline hplace.1, fun hne => absurd rfl hne⟩

theorem IsPlace.of_newline {line front rest : List Char}
    (h : IsPlace (line ++ '\n' :: front) rest) : IsPlace front rest := by
  obtain ⟨_, hnewline, hreturn⟩ := h
  cases front with
  | nil =>
    have hne := hnewline (by simp)
    exact ⟨by simpa using hne, fun _ => hne, nofun⟩
  | cons c front =>
    rw [List.getLast?_append_of_ne_nil _ (List.cons_ne_nil _ _), List.getLast?_cons_cons]
      at hnewline hreturn
    exact ⟨List.cons_ne_nil _ _, hnewline, hreturn⟩

/--
The rows before the row of a place hold all that comes before it but the last line.
-/
theorem exists_rows_of_isPlace {front rest : List Char} (h : IsPlace front rest) :
    ∃ above more ending below,
      rows (front ++ rest) = above ++ ⟨lastLine front ++ more, ending⟩ :: below
        ∧ above.length = front.count '\n' ∧ above.flatMap Row.whole ++ lastLine front = front
        ∧ (below ≠ [] → ending ≠ []) := by
  induction front using lines.cases with
  | line line hline =>
    obtain ⟨more, ending, below, hrows, hending⟩ := exists_row_of_line hline h
    rw [lastLine_of_not_mem hline]
    exact ⟨[], more, ending, below, hrows, (List.count_eq_zero.mpr hline).symm, rfl, hending⟩
  | newline line front hline ih =>
    obtain ⟨above, more, ending, below, hrows, hlength, hwhole, hending⟩ := ih h.of_newline
    refine ⟨Row.ofLine line :: above, more, ending, below, ?_, ?_, ?_, hending⟩
    . rw [List.append_assoc, List.cons_append, rows_newline hline, hrows, lastLine_newline]
      rfl
    . rw [List.length_cons, hlength, List.count_append, List.count_eq_zero.mpr hline,
        List.count_cons_self, Nat.zero_add]
    . rw [List.flatMap_cons, Row.whole_ofLine, lastLine_newline, List.append_assoc, hwhole]
      simp

theorem position?_append (above : List Row) (row : Row) (below : List Row) (index offset : Nat) :
    position? index (above ++ row :: below) (byteSize (above.flatMap Row.whole) + offset)
      =
    position? (index + above.length) (row :: below) offset := by
  induction above generalizing index with
  | nil =>
    rw [List.flatMap_nil, byteSize_nil, Nat.zero_add]
    rfl
  | cons first above ih =>
    have hne : above ++ row :: below ≠ [] := by simp
    obtain ⟨next, others, hothers⟩ := List.exists_cons_of_ne_nil hne
    rw [List.flatMap_cons, byteSize_append, Nat.add_assoc, List.cons_append, hothers, position?,
      if_neg (by omega), ← hothers, Nat.add_sub_cancel_left, ih, List.length_cons,
      Nat.add_right_comm, Nat.add_assoc]

theorem position?_of_prefix {before more ending : List Char} {below : List Row} (index : Nat)
    (hending : below ≠ [] → ending ≠ []) :
    position? index (⟨before ++ more, ending⟩ :: below) (byteSize before)
      = some ⟨index, before, false⟩ := by
  have hle : byteSize before ≤ byteSize (before ++ more) := by
    rw [byteSize_append]
    exact Nat.le_add_right _ _
  have htake : takeBytes? (before ++ more) (byteSize before) = some before :=
    takeBytes?_eq_some_iff.mpr ⟨more, rfl, rfl⟩
  have hrow : (Row.mk (before ++ more) ending).position? index (byteSize before)
      = some ⟨index, before, false⟩ := by
    simp only [Row.position?, Nat.min_eq_left hle, htake, Option.map_some,
      decide_eq_false (Nat.not_lt_of_le hle)]
  cases below with
  | nil => exact hrow
  | cons next below =>
    have hpos := List.length_pos_iff.mpr (hending (List.cons_ne_nil _ _))
    have hlength := length_le_byteSize ending
    have hlt : byteSize before < byteSize (Row.mk (before ++ more) ending).whole := by
      rw [Row.whole, byteSize_append (before ++ more)]
      exact Nat.lt_of_le_of_lt hle (Nat.lt_add_of_pos_right (Nat.lt_of_lt_of_le hpos hlength))
    rw [position?, if_pos hlt, hrow]

/--
A place in a text is on the row with the number of the line feeds before it.
-/
theorem position?_of_isPlace {front rest : List Char} (h : IsPlace front rest) :
    position? 0 (rows (front ++ rest)) (byteSize front)
      = some ⟨front.count '\n', lastLine front, false⟩ := by
  obtain ⟨above, more, ending, below, hrows, hlength, hwhole, hending⟩ := exists_rows_of_isPlace h
  have hsize : byteSize front = byteSize (above.flatMap Row.whole) + byteSize (lastLine front) := by
    rw [← byteSize_append, hwhole]
  rw [hrows, hsize, position?_append, position?_of_prefix _ hending, Nat.zero_add, hlength]

theorem exists_line_of_isPlace {front rest : List Char} (h : IsPlace front rest) :
    ∃ more, (lines (front ++ rest))[front.count '\n']? = some (lastLine front ++ more) := by
  obtain ⟨above, more, ending, below, hrows, hlength, _⟩ := exists_rows_of_isPlace h
  refine ⟨more, ?_⟩
  rw [lines, hrows, ← hlength]
  simp

end Text
end PddlOutline
