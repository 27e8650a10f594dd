import Mathlib.Data.List.Forall2
import PddlOutline.Text.Display

/-!
This module contains what printing does to a text. The characters that are printed for a text and
the columns that they take are described one by one; printing does not change the columns, and it
leaves alone the characters from the space to the tilde, each of which takes a column of its own.
-/

namespace PddlOutline
namespace Text

/--
Whether all characters are of ASCII and none is a control.
-/
def IsPrintable (cs : List Char) : Prop :=
  ∀ c ∈ cs, ' ' ≤ c ∧ c ≤ '~'

instance (cs : List Char) : Decidable (IsPrintable cs) :=
  inferInstanceAs (Decidable (∀ c ∈ cs, ' ' ≤ c ∧ c ≤ '~'))

theorem IsPrintable.append {as bs : List Char} (has : IsPrintable as) (hbs : IsPrintable bs) :
    IsPrintable (as ++ bs) :=
  List.forall_mem_append.mpr ⟨has, hbs⟩

theorem IsPrintable.not_mem {cs : List Char} (h : IsPrintable cs) {c : Char} (hc : c < ' ') :
    c ∉ cs :=
  fun hmem => absurd (h c hmem).1 (Char.not_le.mpr hc)

/-! What is printed for a text. -/

/--
The marks, embeddings, overrides and isolates that set the direction of the text around them.
-/
def directionals : List Char :=
  ['\u202a', '\u202b', '\u202c', '\u202d', '\u202e', '\u2066', '\u2067', '\u2068', '\u2069']

/--
Whether a character stands for itself.
-/
def ShowsItself (c : Char) : Prop :=
  ' ' ≤ c ∧ c ∉ '\x7f' :: '\u200d' :: directionals

instance (c : Char) : Decidable (ShowsItself c) :=
  inferInstanceAs (Decidable (' ' ≤ c ∧ c ∉ '\x7f' :: '\u200d' :: directionals))

/--
What is printed for a character. A control is replaced by the picture of it.
-/
inductive DepictsChar : Char → List Char → Prop
  | tab : DepictsChar '\t' [' ', ' ', ' ', ' ']
  | control {c picture : Char} (hlow : c < ' ') (htab : c ≠ '\t') (hnewline : c ≠ '\n')
    (h : picture.toNat = 0x2400 + c.toNat) : DepictsChar c [picture]
  | delete : DepictsChar '\x7f' ['\u2421']
  | joiner : DepictsChar '\u200d' []
  | directional {c : Char} (h : c ∈ directionals) : DepictsChar c ['\ufffd']
  | newline : DepictsChar '\n' ['\n']
  | plain {c : Char} (h : ShowsItself c) : DepictsChar c [c]

/--
Whether `shown` is printed for a text.
-/
def Depicts (cs shown : List Char) : Prop :=
  ∃ pieces, List.Forall₂ DepictsChar cs pieces ∧ shown = pieces.flatten

theorem isDirectional_iff {c : Char} : isDirectional c ↔ c ∈ directionals := by
  have hmem : c ∈ directionals ↔ c.toNat ∈ directionals.map Char.toNat := by
    simp only [List.mem_map, Char.toNat_inj, exists_eq_right]
  have hmap : directionals.map Char.toNat
      = [0x202A, 0x202B, 0x202C, 0x202D, 0x202E, 0x2066, 0x2067, 0x2068, 0x2069] := rfl
  rw [hmem, hmap]
  simp only [isDirectional, inRanges, List.any_cons, List.any_nil, Bool.or_false, Bool.or_eq_true,
    Bool.and_eq_true, decide_eq_true_eq, List.mem_cons, List.not_mem_nil, or_false]
  omega

theorem depictsChar_displayChar (c : Char) : DepictsChar c (displayChar c) := by
  rw [displayChar]
  split
  next hnewline => exact hnewline ▸ .newline
  next hnewline =>
    split
    next htab => exact htab ▸ .tab
    next htab =>
      split
      next hlow =>
        refine .control hlow htab hnewline ?_
        rw [Char.ofNat, dif_pos (.inl (by omega))]
        rfl
      next hlow =>
        split
        next hdelete => exact hdelete ▸ .delete
        next hdelete =>
          split
          next hjoiner => exact hjoiner ▸ .joiner
          next hjoiner =>
            split
            next hdirectional => exact .directional (isDirectional_iff.mp hdirectional)
            next hdirectional =>
              refine .plain ⟨Nat.le_of_not_lt hlow, ?_⟩
              rw [List.mem_cons, List.mem_cons, ← isDirectional_iff]
              tauto

theorem depicts_display (cs : List Char) : Depicts cs (display cs) := by
  refine ⟨cs.map displayChar, ?_, List.flatMap_def⟩
  rw [List.forall₂_map_right_iff, List.forall₂_same]
  exact fun c _ => depictsChar_displayChar c

theorem display_append (as bs : List Char) : display (as ++ bs) = display as ++ display bs :=
  List.flatMap_append

theorem DepictsChar.eq_singleton {c : Char} {shown : List Char} (h : DepictsChar c shown)
    (hc : ShowsItself c) : shown = [c] := by
  cases h with
  | tab => exact absurd hc.1 (by decide)
  | control hlow => exact absurd hc.1 (Char.not_le.mpr hlow)
  | delete => exact absurd hc.2 (by decide)
  | joiner => exact absurd hc.2 (by decide)
  | directional h => exact absurd (List.mem_cons_of_mem _ (List.mem_cons_of_mem _ h)) hc.2
  | newline => exact absurd hc.1 (by decide)
  | plain => rfl

theorem Depicts.eq_self {cs shown : List Char} (h : Depicts cs shown)
    (hcs : ∀ c ∈ cs, ShowsItself c) : shown = cs := by
  obtain ⟨pieces, hpieces, rfl⟩ := h
  induction hpieces with
  | nil => rfl
  | @cons c piece cs pieces hpiece _ ih =>
    obtain ⟨hc, hcs⟩ := List.forall_mem_cons.mp hcs
    rw [List.flatten_cons, hpiece.eq_singleton hc, ih hcs, List.singleton_append]

theorem IsPrintable.showsItself {cs : List Char} (h : IsPrintable cs) {c : Char} (hc : c ∈ cs) :
    ShowsItself c := by
  have hbeyond : ∀ d ∈ '\x7f' :: '\u200d' :: directionals, ¬ d ≤ '~' := by
    decide
  exact ⟨(h c hc).1, fun hmem => hbeyond c hmem (h c hc).2⟩

theorem display_eq_self {cs : List Char} (h : IsPrintable cs) : display cs = cs :=
  (depicts_display cs).eq_self fun _ hc => h.showsItself hc

/-! The columns that a text takes. -/

theorem inRanges_eq_false {ranges : List (Nat × Nat)} {first last : Nat} {c : Char}
    (h : ∀ range ∈ ranges, range.2 < first ∨ last < range.1) (hfirst : first ≤ c.toNat)
    (hlast : c.toNat ≤ last) : inRanges ranges c = false := by
  rw [inRanges, List.any_eq_false]
  rintro ⟨low, high⟩ hrange
  have hgap := h _ hrange
  simp only [Bool.and_eq_true, decide_eq_true_eq]
  omega

theorem isWeightless_eq_false {first last : Nat} {c : Char}
    (h : ∀ range ∈ extendingRanges ++ weightlessRanges, range.2 < first ∨ last < range.1)
    (hfirst : first ≤ c.toNat) (hlast : c.toNat ≤ last) : isWeightless c = false := by
  obtain ⟨hextending, hweightless⟩ := List.forall_mem_append.mp h
  rw [isWeightless, isExtending, inRanges_eq_false hextending hfirst hlast,
    inRanges_eq_false hweightless hfirst hlast, Bool.false_or]

theorem isWeightless_ascii {c : Char} (h : c.toNat ≤ 0x7F) : isWeightless c = false :=
  isWeightless_eq_false (by decide +kernel) (Nat.zero_le _) h

theorem isWeightless_picture {c : Char} (hlow : 0x2400 ≤ c.toNat) (hhigh : c.toNat ≤ 0x2421) :
    isWeightless c = false :=
  isWeightless_eq_false (by decide +kernel) hlow hhigh

theorem width_cons (c : Char) (cs : List Char) : width (c :: cs) = charWidth c + width cs := rfl

theorem width_append (as bs : List Char) : width (as ++ bs) = width as + width bs := by
  induction as with
  | nil => exact (Nat.zero_add (width bs)).symm
  | cons a as ih => rw [List.cons_append, width_cons, width_cons, ih, Nat.add_assoc]

/--
The columns that a text takes if none of its characters is wide: four for a tab, none for what takes
no column, and one for everything else.
-/
def columns (cs : List Char) : Nat :=
  cs.countP (!isWeightless ·) + 3 * cs.count '\t'

theorem width_eq_columns {cs : List Char} (h : ∀ c ∈ cs, ¬ isWide c) : width cs = columns cs := by
  induction cs with
  | nil => rfl
  | cons c cs ih =>
    obtain ⟨hc, hcs⟩ := List.forall_mem_cons.mp h
    rw [width_cons, ih hcs, columns, columns, List.countP_cons, List.count_cons, charWidth]
    by_cases htab : c = '\t'
    . have hweight : isWeightless '\t' = false := isWeightless_ascii (by decide)
      rw [htab, if_pos rfl, hweight]
      simp only [Bool.not_false, beq_self_eq_true, ↓reduceIte]
      omega
    . simp only [htab, ↓reduceIte, beq_iff_eq, Bool.not_eq_true']
      cases isWeightless c with
      | true => simp
      | false => simp [hc, Nat.add_comm, Nat.add_left_comm]

example : width "e\u0301\t".toList = 5 ∧ width "e\u0301\t世".toList = 7 := by
  decide +kernel

theorem columns_eq_length {cs : List Char} (h : IsPrintable cs) : columns cs = cs.length := by
  have hcount : cs.countP (!isWeightless ·) = cs.length := by
    rw [List.countP_eq_length]
    intro c hc
    rw [isWeightless_ascii (Nat.le_succ_of_le (h c hc).2), Bool.not_false]
  rw [columns, hcount, List.count_eq_zero.mpr (h.not_mem (by decide))]
  rfl

theorem columns_append (as bs : List Char) : columns (as ++ bs) = columns as + columns bs := by
  rw [columns, columns, columns, List.countP_append, List.count_append]
  omega

theorem columns_singleton {c : Char} (h : isWeightless c = false) (htab : c ≠ '\t') :
    columns [c] = 1 := by
  rw [columns, List.countP_singleton, h, List.count_singleton, beq_false_of_ne htab]
  rfl

theorem DepictsChar.columns_eq {c : Char} {shown : List Char} (h : DepictsChar c shown) :
    columns shown = columns [c] := by
  cases h with
  | tab => decide +kernel
  | @control c picture hlow htab _ h =>
    have hc : c.toNat < 0x20 := hlow
    have htab' : picture ≠ '\t' := by
      rintro rfl
      exact absurd h (by rw [show ('\t').toNat = 9 from rfl]; omega)
    rw [columns_singleton (isWeightless_picture (by omega) (by omega)) htab',
      columns_singleton (isWeightless_ascii (by omega)) htab]
  | delete => decide +kernel
  | joiner => decide +kernel
  | directional h =>
    have hall : ∀ d ∈ directionals, columns ['\ufffd'] = columns [d] := by
      decide +kernel
    exact hall c h
  | newline => rfl
  | plain => rfl

/--
What is printed for a text takes as many columns as the text.
-/
theorem Depicts.columns_eq {cs shown : List Char} (h : Depicts cs shown) :
    columns shown = columns cs := by
  obtain ⟨pieces, hpieces, rfl⟩ := h
  induction hpieces with
  | nil => rfl
  | @cons c piece cs pieces hpiece _ ih =>
    rw [List.flatten_cons, columns_append, hpiece.columns_eq, ih, ← columns_append,
      List.singleton_append]

/-! Texts that set no colours. -/

theorem uncolored_eq_self {cs : List Char} (h : '\x1b' ∉ cs) : uncolored cs = cs := by
  induction cs with
  | nil => rw [uncolored]
  | cons c cs ih =>
    obtain ⟨hescape, hcs⟩ := not_or.mp (mt List.mem_cons.mpr h)
    have hstyle : afterStyle? (c :: cs) = none := by
      rw [afterStyle?]
      rintro rest hrest
      exact hescape (List.cons.inj hrest).1.symm
    rw [uncolored]
    split
    next hsome => cases hstyle.symm.trans hsome
    next => rw [ih hcs]

end Text
end PddlOutline
