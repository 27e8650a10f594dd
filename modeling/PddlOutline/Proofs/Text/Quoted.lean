import PddlOutline.Proofs.Text.Display
import PddlOutline.Text.Quoted

/-!
This module contains how texts are quoted and guarded. Between quotation marks every character
stands for itself, or it is spelled as a letter or a number behind a backslash. In a guarded text
only those are spelled that a terminal takes for commands.
-/

namespace PddlOutline
namespace Text

/--
The characters that are spelled with a letter, and their letters.
-/
def letters : List (Char × Char) :=
  [('"', '"'), ('\\', '\\'), ('\x00', '0'), ('\t', 't'), ('\n', 'n'), ('\r', 'r')]

/--
How a character may be spelled. In ASCII only controls are spelled as numbers.
-/
inductive Spells : Char → List Char → Prop
  | letter {c letter : Char} (h : (c, letter) ∈ letters) : Spells c ['\\', letter]
  | number {c : Char} (hletter : c ∉ letters.map Prod.fst) (h : c < ' ' ∨ '~' < c) :
    Spells c ("\\u\x7b".toList ++ Nat.toDigits 16 c.toNat ++ "\x7d".toList)
  | itself {c : Char} (hletter : c ∉ letters.map Prod.fst)
    (h : ' ' ≤ c ∧ c ≤ '~' ∨ '\u00a0' < c) : Spells c [c]

/--
Whether `shown` is a text between quotation marks.
-/
def Quotes (cs shown : List Char) : Prop :=
  ∃ pieces, List.Forall₂ Spells cs pieces ∧ shown = '"' :: pieces.flatten ++ ['"']

theorem isShown_ascii {c : Char} (hlow : ' ' ≤ c) (hhigh : c ≤ '~') : isShown c := by
  have hlow : 0x20 ≤ c.toNat := hlow
  have hhigh : c.toNat ≤ 0x7E := hhigh
  have hextending : inRanges extendingRanges c = false :=
    inRanges_eq_false (by decide +kernel) hlow hhigh
  have hhidden : inRanges hiddenRanges c = false :=
    inRanges_eq_false (by decide +kernel) hlow hhigh
  rw [isShown, isExtending, hextending, hhidden]
  rfl

theorem ascii_or_of_isShown {c : Char} (h : isShown c) : ' ' ≤ c ∧ c ≤ '~' ∨ '\u00a0' < c := by
  by_contra hc
  simp only [not_or, not_and, Char.not_le, Char.not_lt] at hc
  obtain ⟨hascii, hlast⟩ := hc
  have hlast : c.toNat ≤ 0xA0 := hlast
  have hhidden : ∃ range ∈ hiddenRanges, range.1 ≤ c.toNat ∧ c.toNat ≤ range.2 := by
    by_cases hlow : ' ' ≤ c
    . have hhigh : 0x7E < c.toNat := hascii hlow
      exact ⟨(0x7F, 0xA0), List.mem_cons_of_mem _ List.mem_cons_self, hhigh, hlast⟩
    . have hlow : c.toNat < 0x20 := Char.not_le.mp hlow
      exact ⟨(0x0, 0x1F), List.mem_cons_self, Nat.zero_le _, Nat.le_of_lt_succ hlow⟩
  have hrange : inRanges hiddenRanges c := by
    rw [inRanges, List.any_eq_true]
    obtain ⟨range, hrange, hin⟩ := hhidden
    exact ⟨range, hrange, by simpa using hin⟩
  rw [isShown, hrange] at h
  exact Bool.false_ne_true h

theorem spells_quoteChar (c : Char) : Spells c (quoteChar c) := by
  unfold quoteChar
  split
  case h_7 =>
    have hletter : c ∉ letters.map Prod.fst := by
      simp_all [letters]
    split
    next h => exact .itself hletter (ascii_or_of_isShown h)
    next h =>
      refine .number hletter ?_
      by_contra hascii
      rw [not_or, Char.not_lt, Char.not_lt] at hascii
      exact h (isShown_ascii hascii.1 hascii.2)
  all_goals exact .letter (by decide)

theorem quotes_quote (cs : List Char) : Quotes cs (quote cs) := by
  refine ⟨cs.map quoteChar, ?_, ?_⟩
  . rw [List.forall₂_map_right_iff, List.forall₂_same]
    exact fun c _ => spells_quoteChar c
  . rw [quote, List.flatMap_def]

/--
The characters of ASCII that a terminal takes for commands, and how they are spelled.
-/
def commands : List (Char × List Char) :=
  [('\x07', "\\x07".toList), ('\x08', "\\x08".toList), ('\x0c', "\\x0c".toList),
    ('\x1b', "\\x1b".toList), ('\x7f', "\\x7f".toList)]

/--
How a character is spelled in a guarded text.
-/
inductive GuardsChar : Char → List Char → Prop
  | command {c : Char} {spelling : List Char} (h : (c, spelling) ∈ commands) :
    GuardsChar c spelling
  | number {c : Char} (h : '\u0080' ≤ c ∧ c ≤ '\u009f') :
    GuardsChar c ("\\u\x7b".toList ++ Nat.toDigits 16 c.toNat ++ "\x7d".toList)
  | itself {c : Char} (hcommand : c ∉ commands.map Prod.fst) (h : c < '\u0080' ∨ '\u009f' < c) :
    GuardsChar c [c]

/--
Whether `shown` is the guarded form of a text.
-/
def Guards (cs shown : List Char) : Prop :=
  ∃ pieces, List.Forall₂ GuardsChar cs pieces ∧ shown = pieces.flatten

theorem guardsChar_guardChar (c : Char) : GuardsChar c (guardChar c) := by
  unfold guardChar
  split
  case h_6 =>
    have hcommand : c ∉ commands.map Prod.fst := by
      simp_all [commands]
    split
    next h =>
      rw [Bool.and_eq_true, decide_eq_true_eq, decide_eq_true_eq] at h
      exact .number h
    next h =>
      refine .itself hcommand ?_
      by_contra hrange
      rw [not_or, Char.not_lt, Char.not_lt] at hrange
      rw [Bool.and_eq_true, decide_eq_true_eq, decide_eq_true_eq] at h
      exact h hrange
  all_goals exact .command (by decide)

theorem guards_guarded (cs : List Char) : Guards cs (guarded cs) := by
  refine ⟨cs.map guardChar, ?_, List.flatMap_def⟩
  rw [List.forall₂_map_right_iff, List.forall₂_same]
  exact fun c _ => guardsChar_guardChar c

end Text
end PddlOutline
