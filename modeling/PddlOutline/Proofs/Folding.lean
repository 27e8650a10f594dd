import Mathlib.Data.List.DropRight
import PddlOutline.Diagnostic.Render

/-!
This module contains which rows of an excerpt are left out. Of many rows the first ones and the last
ones are kept, and those of the kept rows that show little are dropped where they touch the rows in
between.
-/

namespace PddlOutline

namespace Text

/--
Trimming takes blanks away at both ends.
-/
theorem exists_trim (cs : List Char) : ∃ left right, cs = left ++ (trim cs ++ right)
    ∧ (∀ c ∈ left, isBlank c) ∧ ∀ c ∈ right, isBlank c := by
  refine ⟨cs.takeWhile isBlank, (trimStart cs).rtakeWhile isBlank, ?_, ?_, ?_⟩
  . show _ = _ ++ ((trimStart cs).rdropWhile isBlank ++ _)
    rw [List.rdropWhile_append_rtakeWhile, trimStart, List.takeWhile_append_dropWhile]
  . exact fun c hc => List.mem_takeWhile_imp hc
  . exact fun c hc => List.mem_rtakeWhile_imp hc

/--
There is one way to take blanks away until something else stands at both ends.
-/
theorem trim_append {left inner right : List Char} (hleft : ∀ c ∈ left, isBlank c)
    (hright : ∀ c ∈ right, isBlank c) (hhead : ∃ c ∈ inner.head?, ¬ isBlank c)
    (hlast : ∃ c ∈ inner.getLast?, ¬ isBlank c) : trim (left ++ (inner ++ right)) = inner := by
  obtain ⟨c, hc, hsolid⟩ := hhead
  obtain ⟨rest, rfl⟩ := List.head?_eq_some_iff.mp hc
  obtain ⟨d, hd, hsolid'⟩ := hlast
  obtain ⟨front, hfront⟩ := List.getLast?_eq_some_iff.mp hd
  have hright' : ∀ c ∈ right.reverse, isBlank c := fun c hc => hright c (List.mem_reverse.mp hc)
  rw [trim, trimStart, trimStart, List.dropWhile_append_of_pos hleft, List.cons_append,
    List.dropWhile_cons_of_neg hsolid, ← List.cons_append, List.reverse_append,
    List.dropWhile_append_of_pos hright', hfront, List.reverse_concat,
    List.dropWhile_cons_of_neg hsolid', List.reverse_cons, List.reverse_reverse]

end Text

namespace Excerpt

/-! Rows that show little. -/

def brackets : List Char :=
  ['(', ')', '[', ']', '\x7b', '\x7d']

/--
Whether a row is blank, or has nothing on it but a bracket or a comment.
-/
inductive IsFiller : List Char → Prop
  | blank {row : List Char} (h : ∀ c ∈ row, Text.isBlank c) : IsFiller row
  | bracket {left right : List Char} {c : Char} (hleft : ∀ c ∈ left, Text.isBlank c)
    (hright : ∀ c ∈ right, Text.isBlank c) (hc : c ∈ brackets) : IsFiller (left ++ c :: right)
  | comment {left rest : List Char} (hleft : ∀ c ∈ left, Text.isBlank c)
    (hrest : ∀ c ∈ rest.head?, c ≠ '/' ∧ c ≠ '!') : IsFiller (left ++ '/' :: '/' :: rest)

theorem isComment_iff {row : List Char} :
    isComment row ↔ ∃ rest, row = '/' :: '/' :: rest ∧ ∀ c ∈ rest.head?, c ≠ '/' ∧ c ≠ '!' := by
  unfold isComment
  split
  next c rest => simp
  next => simp
  next hlong hshort =>
    constructor
    . nofun
    . rintro ⟨rest, rfl, _⟩
      cases rest with
      | nil => exact (hshort rfl).elim
      | cons c rest => exact (hlong c rest rfl).elim

theorem solid_of_mem {c : Char} (h : c ∈ '/' :: '!' :: brackets) : ¬ Text.isBlank c := by
  have hall : ∀ c ∈ '/' :: '!' :: brackets, ¬ Text.isBlank c := by
    decide
  exact hall c h

theorem isFiller_of_forall_isBlank {row : List Char} (h : ∀ c ∈ row, Text.isBlank c) :
    isFiller row := by
  have htrim : Text.trim row = [] := by
    rw [Text.trim, Text.trimStart, Text.trimStart, List.dropWhile_eq_nil_iff.mpr h]
    rfl
  rw [isFiller, htrim]
  rfl

theorem isFiller_bracket {left right : List Char} {c : Char} (hleft : ∀ c ∈ left, Text.isBlank c)
    (hright : ∀ c ∈ right, Text.isBlank c) (hc : c ∈ brackets) : isFiller (left ++ c :: right) := by
  have hsolid : ¬ Text.isBlank c := solid_of_mem (by simp [hc])
  have htrim : Text.trim (left ++ ([c] ++ right)) = [c] :=
    Text.trim_append hleft hright ⟨c, rfl, hsolid⟩ ⟨c, rfl, hsolid⟩
  rw [List.singleton_append] at htrim
  rw [isFiller, htrim]
  simp only [List.length_singleton, Nat.le_refl, List.all_cons, List.all_nil, Bool.and_true,
    decide_true, Bool.true_and, Bool.or_eq_true]
  exact .inr (List.contains_iff_mem.mpr hc)

theorem isFiller_comment {left rest : List Char} (hleft : ∀ c ∈ left, Text.isBlank c)
    (hrest : ∀ c ∈ rest.head?, c ≠ '/' ∧ c ≠ '!') : isFiller (left ++ '/' :: '/' :: rest) := by
  let solid := rest.rdropWhile Text.isBlank
  have hsplit : solid ++ rest.rtakeWhile Text.isBlank = rest := List.rdropWhile_append_rtakeWhile
  have hslash : ¬ Text.isBlank '/' := solid_of_mem (by decide)
  have hlast : ∃ c ∈ ('/' :: '/' :: solid).getLast?, ¬ Text.isBlank c := by
    by_cases hsolid : solid = []
    . exact ⟨'/', by rw [hsolid]; rfl, hslash⟩
    . refine ⟨solid.getLast hsolid, ?_, List.rdropWhile_last_not _ _ hsolid⟩
      rw [List.getLast?_cons, List.getLast?_cons, List.getLast?_eq_some_getLast hsolid]
      rfl
  have htrim : Text.trim (left ++ ('/' :: '/' :: solid ++ rest.rtakeWhile Text.isBlank))
      = '/' :: '/' :: solid :=
    Text.trim_append hleft (fun c hc => List.mem_rtakeWhile_imp hc) ⟨'/', rfl, hslash⟩ hlast
  rw [List.cons_append, List.cons_append, hsplit] at htrim
  have hcomment : isComment ('/' :: '/' :: solid) := by
    refine isComment_iff.mpr ⟨solid, rfl, fun c hc => hrest c ?_⟩
    rw [← hsplit]
    exact List.mem_head?_append_of_mem_head? hc
  rw [isFiller, htrim, hcomment, Bool.true_or]

theorem isFiller_iff {row : List Char} : isFiller row ↔ IsFiller row := by
  constructor
  . intro h
    obtain ⟨left, right, hrow, hleft, hright⟩ := Text.exists_trim row
    simp only [isFiller, Bool.or_eq_true, isComment_iff, Bool.and_eq_true, decide_eq_true_eq,
      List.all_eq_true, List.contains_iff_mem] at h
    rcases h with ⟨rest, hinner, hrest⟩ | ⟨hlength, hinner⟩
    . rw [hrow, hinner]
      refine .comment hleft ?_
      cases rest with
      | nil =>
        intro c hc
        have hblank := hright c (List.mem_of_mem_head? hc)
        constructor
        . rintro rfl
          exact solid_of_mem (by decide) hblank
        . rintro rfl
          exact solid_of_mem (by decide) hblank
      | cons c rest => exact hrest
    . cases hcs : Text.trim row with
      | nil =>
        rw [hcs] at hrow
        rw [hrow]
        exact .blank (List.forall_mem_append.mpr ⟨hleft, hright⟩)
      | cons c cs =>
        rw [hcs, List.length_cons] at hlength
        obtain rfl : cs = [] := List.length_eq_zero_iff.mp (by omega)
        rw [hcs] at hrow hinner
        rw [hrow]
        exact .bracket hleft hright (hinner c List.mem_cons_self)
  . intro h
    cases h with
    | blank h => exact isFiller_of_forall_isBlank h
    | bracket hleft hright hc => exact isFiller_bracket hleft hright hc
    | comment hleft hrest => exact isFiller_comment hleft hrest

/-! How many rows are kept. -/

/--
How many rows are kept at the start: of the first four rows before the last one those that remain
when fillers at their end are dropped, but at least one.
-/
structure IsHead (rows : List (List Char)) (head : Nat) : Prop where
  pos : 0 < head
  le : head = 1 ∨ head ≤ 4 ∧ head < rows.length
  solid : head ≠ 1 → ∀ row ∈ rows[head - 1]?, ¬ IsFiller row
  fillers : ∀ i row, head ≤ i → i < 4 → i + 1 < rows.length → rows[i]? = some row → IsFiller row

/--
How many rows are kept at the end: the last one, and the one before it if there are many rows and it
is no filler.
-/
structure IsTail (rows : List (List Char)) (tail : Nat) : Prop where
  cases : tail = 1 ∨ tail = 2
  two_iff : tail = 2 ↔ 7 ≤ rows.length ∧ ∀ row ∈ rows.dropLast.getLast?, ¬ IsFiller row

theorem isHead_headSize (rows : List (List Char)) : IsHead rows (headSize rows) := by
  let front := (rows.dropLast.take 4).rdropWhile isFiller
  have hhead : headSize rows = max 1 front.length := by
    rw [headSize]
    exact congrArg _ List.length_reverse.symm
  have hsplit : front ++ (rows.dropLast.take 4).rtakeWhile isFiller = rows.dropLast.take 4 :=
    List.rdropWhile_append_rtakeWhile
  have hlength := congrArg List.length hsplit
  rw [List.length_append, List.length_take, List.length_dropLast] at hlength
  have hget : ∀ i < 4, i + 1 < rows.length →
      rows[i]? = (front ++ (rows.dropLast.take 4).rtakeWhile isFiller)[i]? := by
    intro i hi hlt
    rw [hsplit, List.getElem?_take_of_lt hi, List.getElem?_dropLast, if_pos (by omega)]
  constructor
  case pos => omega
  case le => omega
  case solid =>
    intro hone row hrow hfiller
    have hne : front ≠ [] := by
      rintro hnil
      rw [hnil] at hhead
      exact hone hhead
    have hpos := List.length_pos_iff.mpr hne
    have hlast : headSize rows - 1 = front.length - 1 := by
      omega
    rw [hlast, hget _ (by omega) (by omega), List.getElem?_append_left (by omega),
      ← List.getLast?_eq_getElem?, List.getLast?_eq_some_getLast hne, Option.mem_some] at hrow
    exact List.rdropWhile_last_not _ _ hne (hrow ▸ isFiller_iff.mpr hfiller)
  case fillers =>
    intro i row hle hi hlt hrow
    rw [hget i hi hlt, List.getElem?_append_right (by omega)] at hrow
    exact isFiller_iff.mp (List.mem_rtakeWhile_imp (List.mem_of_getElem? hrow))

theorem isTail_tailSize (rows : List (List Char)) : IsTail rows (tailSize rows) := by
  have htwo : (7 ≤ rows.length && !(rows.dropLast.getLast?.any isFiller))
      ↔ 7 ≤ rows.length ∧ ∀ row ∈ rows.dropLast.getLast?, ¬ IsFiller row := by
    rw [Bool.and_eq_true, decide_eq_true_eq, Bool.not_eq_true', Option.any_eq_false]
    simp only [← isFiller_iff, Bool.not_eq_true, Option.mem_def]
  rw [tailSize]
  split
  next h => exact ⟨.inr rfl, by simpa using htwo.mp h⟩
  next h => exact ⟨.inl rfl, by simpa using mt htwo.mpr h⟩

/--
Few rows are all kept.
-/
theorem length_le_of_few {rows : List (List Char)} {head tail : Nat} (hhead : IsHead rows head)
    (htail : IsTail rows tail)
    (h : rows.length ≤ 3 ∨ rows.length ≤ 7 ∧ ∀ row ∈ rows.dropLast, ¬ IsFiller row) :
    rows.length ≤ head + 1 + tail := by
  have hpos := hhead.pos
  have hcases := htail.cases
  obtain hfew | ⟨hfew, hsolid⟩ := h
  . omega
  . have hfour : 4 ≤ head ∨ rows.length ≤ head + 1 := by
      by_contra hlt
      have hrow : rows[head]? = some rows[head] := List.getElem?_eq_getElem (by omega)
      have hkept : rows.dropLast[head]? = some rows[head] := by
        rw [List.getElem?_dropLast, if_pos (by omega), hrow]
      have hfiller := hhead.fillers head _ (Nat.le_refl _) (by omega) (by omega) hrow
      exact hsolid _ (List.mem_of_getElem? hkept) hfiller
    by_cases hseven : 7 ≤ rows.length
    . have htwo := htail.two_iff.mpr
        ⟨hseven, fun row hrow => hsolid row (List.mem_of_getLast? hrow)⟩
      omega
    . omega

/-! What is left of many things. -/

/--
The first `head` and the last `tail` of a list with `none` for what is in between, unless that is
less than two.
-/
def kept {α : Type} (head tail : Nat) (as : List α) : List (Option α) :=
  if as.length ≤ head + 1 + tail then
    as.map some
  else
    (as.take head).map some ++ none :: (as.drop (as.length - tail)).map some

theorem kept_cons {α : Type} (head tail : Nat) (a : α) (as : List α) :
    kept (head + 1) tail (a :: as) = some a :: kept head tail as := by
  have hlength : (a :: as).length = as.length + 1 := rfl
  by_cases h : as.length ≤ head + 1 + tail
  . rw [kept, kept, if_pos h, if_pos (by omega)]
    rfl
  . rw [kept, kept, if_neg h, if_neg (by omega), hlength, Nat.sub_add_comm (by omega),
      List.drop_succ_cons]
    rfl

theorem kept_of_length_le {α : Type} {head tail : Nat} {as : List α}
    (h : as.length ≤ head + 1 + tail) : kept head tail as = as.map some :=
  if_pos h

end Excerpt
end PddlOutline
