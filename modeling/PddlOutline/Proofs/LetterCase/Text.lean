import PddlOutline.Document
import PddlOutline.Proofs.Keyword

/-!
This module contains what becomes of a text if all of its letters are put in lower case. Its
characters keep their sizes and stay blank or not, and what is no letter stays what it is; whatever
is found in the text is thus found in the same place.
-/

namespace PddlOutline
namespace Text

theorem toLower_toLower (c : Char) : c.toLower.toLower = c.toLower := by
  rcases toLower_cases c with h | ⟨_, _, hlower⟩
  . rw [h, h]
  . rcases toLower_cases c.toLower with h | ⟨_, hupper, _⟩
    . exact h
    . omega

@[simp]
theorem utf8Size_toLower (c : Char) : c.toLower.utf8Size = c.utf8Size := by
  rcases toLower_cases c with h | ⟨_, hupper, hlower⟩
  . rw [h]
  . have hsize : ∀ d : Char, d.toNat ≤ 127 → d.utf8Size = 1 := fun d hd =>
      Char.utf8Size_eq_one_iff.mpr hd
    rw [hsize c (by omega), hsize c.toLower (by omega)]

@[simp]
theorem isBlank_toLower (c : Char) : isBlank c.toLower = isBlank c := by
  rcases toLower_cases c with h | ⟨hlower, hupper, htoLower⟩
  . rw [h]
  . have hletter : ∀ d : Char, 65 ≤ d.toNat → d.toNat ≤ 122 → isBlank d = false := by
      intro d hlower hupper
      simp only [isBlank, Bool.or_eq_false_iff, Bool.and_eq_false_iff, decide_eq_false_iff_not,
        beq_eq_false_iff_ne]
      omega
    rw [hletter c (by omega) (by omega), hletter c.toLower (by omega) (by omega)]

/--
Whether no letter becomes the character `w` by a change of its case.
-/
def IsCaseless (w : Char) : Prop :=
  w < 'a' ∧ w.toLower = w

instance (w : Char) : Decidable (IsCaseless w) :=
  inferInstanceAs (Decidable (w < 'a' ∧ w.toLower = w))

theorem toLower_eq_iff {w : Char} (hw : IsCaseless w) {c : Char} : c.toLower = w ↔ c = w := by
  constructor
  . intro h
    apply Decidable.byContradiction
    intro hne
    exact toLower_ne hw.1 hne h
  . rintro rfl
    exact hw.2

theorem toLower_beq {w : Char} (hw : IsCaseless w) (c : Char) : (c.toLower == w) = (c == w) := by
  rw [Bool.eq_iff_iff, beq_iff_eq, beq_iff_eq]
  exact toLower_eq_iff hw

/--
A text with all of its letters in lower case.
-/
def lower (cs : List Char) : List Char :=
  cs.map Char.toLower

variable {cs : List Char} {p : Char → Bool}

@[simp]
theorem lower_nil : lower [] = [] := rfl

@[simp]
theorem lower_cons (c : Char) (cs : List Char) : lower (c :: cs) = c.toLower :: lower cs := rfl

theorem lower_append (as bs : List Char) : lower (as ++ bs) = lower as ++ lower bs :=
  List.map_append

theorem lower_lower (cs : List Char) : lower (lower cs) = lower cs := by
  rw [lower, lower, List.map_map]
  congr
  funext c
  exact toLower_toLower c

theorem toList_toLower (s : String) : s.toLower.toList = lower s.toList :=
  String.toList_map

theorem ofList_lower (cs : List Char) : String.ofList (lower cs) = (String.ofList cs).toLower := by
  apply String.toList_injective
  rw [toList_toLower, String.toList_ofList, String.toList_ofList]

theorem toLower_eq_self {s : String} (h : lower s.toList = s.toList) : s.toLower = s := by
  rw [← String.toList_inj, toList_toLower, h]

theorem head?_lower_eq_iff {w : Char} (hw : IsCaseless w) :
    (lower cs).head? = some w ↔ cs.head? = some w := by
  cases cs with
  | nil => rfl
  | cons c cs => simp [toLower_eq_iff hw]

theorem head?_lower_beq {w : Char} (hw : IsCaseless w) (cs : List Char) :
    ((lower cs).head? == some w) = (cs.head? == some w) := by
  rw [Bool.eq_iff_iff, beq_iff_eq, beq_iff_eq]
  exact head?_lower_eq_iff hw

theorem lower_eq_singleton_iff {w : Char} (hw : IsCaseless w) : lower cs = [w] ↔ cs = [w] := by
  rw [lower, List.map_eq_singleton_iff]
  simp [toLower_eq_iff hw]

theorem isEmpty_lower (cs : List Char) : (lower cs).isEmpty = cs.isEmpty :=
  List.isEmpty_map

@[simp]
theorem byteSize_lower (cs : List Char) : byteSize (lower cs) = byteSize cs := by
  induction cs with
  | nil => rfl
  | cons c cs ih => rw [lower_cons, byteSize_cons, byteSize_cons, utf8Size_toLower, ih]

/-! Parts of a text that are chosen by a property of characters. -/

section Choice

variable (hp : ∀ c, p c.toLower = p c)

include hp

theorem takeWhile_lower (cs : List Char) : (lower cs).takeWhile p = lower (cs.takeWhile p) := by
  rw [lower, List.takeWhile_map, show p ∘ Char.toLower = p from funext hp]
  rfl

theorem dropWhile_lower (cs : List Char) : (lower cs).dropWhile p = lower (cs.dropWhile p) := by
  rw [lower, List.dropWhile_map, show p ∘ Char.toLower = p from funext hp]
  rfl

theorem collapse_lower (cs : List Char) : collapse p (lower cs) = lower (collapse p cs) := by
  induction cs with
  | nil => rfl
  | cons c cs ih =>
    have hspace : (lower (collapse p cs)).head? = some ' ' ↔ (collapse p cs).head? = some ' ' :=
      head?_lower_eq_iff (by decide)
    rw [lower_cons, collapse_cons, collapse_cons, hp, ih]
    simp only [hspace]
    split
    . split
      . rfl
      . rfl
    . rfl

end Choice

theorem trimStart_lower (cs : List Char) : trimStart (lower cs) = lower (trimStart cs) :=
  dropWhile_lower isBlank_toLower cs

theorem allBlank_lower (cs : List Char) : allBlank (lower cs) = allBlank cs := by
  rw [allBlank, lower, List.all_map, show isBlank ∘ Char.toLower = isBlank from
    funext isBlank_toLower]
  rfl

/-! Parts of a text between byte offsets. -/

theorem dropBytes?_lower (cs : List Char) (n : Nat) :
    dropBytes? (lower cs) n = (dropBytes? cs n).map lower := by
  fun_induction dropBytes? cs n with
  | case1 cs => rw [dropBytes?, Option.map_some]
  | case2 => rfl
  | case3 c cs n hle ih =>
    rw [lower_cons, dropBytes?, utf8Size_toLower, if_pos hle, ih]
  | case4 c cs n hgt =>
    rw [lower_cons, dropBytes?, utf8Size_toLower, if_neg hgt]
    rfl

theorem takeBytes?_lower (cs : List Char) (n : Nat) :
    takeBytes? (lower cs) n = (takeBytes? cs n).map lower := by
  rw [takeBytes?, takeBytes?, dropBytes?_lower]
  cases dropBytes? cs n with
  | none => rfl
  | some rest => simp [lower]

theorem slice?_lower (cs : List Char) (first stop : Nat) :
    slice? (lower cs) first stop = (slice? cs first stop).map lower := by
  unfold slice?
  split
  . rw [dropBytes?_lower]
    cases dropBytes? cs first with
    | none => rfl
    | some rest => exact takeBytes?_lower rest _
  . rfl

/-! Places in a text at which something stands. -/

theorem startsWith_lower (word cs : List Char) :
    startsWith word (lower cs) = startsWith word cs := by
  have htake : (lower cs).take word.length = lower (cs.take word.length) := List.map_take.symm
  rw [startsWith, startsWith, sameLetters, sameLetters, htake]
  show (_ == lower (lower _)) = _
  rw [lower_lower]
  rfl

theorem occurrences_lower (word : List Char) (offset : Nat) (cs : List Char) :
    occurrences word offset (lower cs) = occurrences word offset cs := by
  induction cs generalizing offset with
  | nil => rfl
  | cons c cs ih =>
    rw [lower_cons, occurrences, occurrences, ← lower_cons, startsWith_lower, utf8Size_toLower, ih]

theorem firstMatch_lower {α β : Type} {f : List Char → Option α} {g : List Char → Option β}
    {h : β → α} (hf : ∀ cs, f (lower cs) = (g cs).map h) (cs : List Char) :
    firstMatch f (lower cs) = (firstMatch g cs).map h := by
  induction cs with
  | nil => exact hf []
  | cons c cs ih =>
    rw [lower_cons, firstMatch, firstMatch, ← lower_cons, hf]
    cases g (c :: cs) with
    | none => exact ih
    | some b => rfl

/-! Lines and their normalization. -/

end Text

def Row.lower (r : Row) : Row :=
  ⟨Text.lower r.chars, Text.lower r.ending⟩

namespace Row

theorem lower_eq_iff {r : Row} : r.lower = ⟨[], ['\n']⟩ ↔ r = ⟨[], ['\n']⟩ := by
  obtain ⟨chars, ending⟩ := r
  rw [lower, mk.injEq, mk.injEq, Text.lower_eq_singleton_iff (by decide), Text.lower,
    List.map_eq_nil_iff]

theorem cons_lower (c : Char) (rows : List Row) :
    cons c.toLower (rows.map lower) = (cons c rows).map lower := by
  have hfeed : c.toLower = '\n' ↔ c = '\n' := Text.toLower_eq_iff (by decide)
  have hreturn : c.toLower = '\r' ↔ c = '\r' := Text.toLower_eq_iff (by decide)
  cases rows with
  | nil =>
    rw [List.map_nil, cons, cons]
    simp only [hfeed]
    split
    . rfl
    . rfl
  | cons row rest =>
    rw [List.map_cons, cons, cons]
    simp only [hfeed, hreturn, lower_eq_iff]
    split
    . rfl
    . split
      . rfl
      . rfl

end Row

namespace Text

theorem rows_lower (cs : List Char) : rows (lower cs) = (rows cs).map Row.lower := by
  induction cs with
  | nil => rfl
  | cons c cs ih =>
    have hcons : ∀ c cs, rows (c :: cs) = Row.cons c (rows cs) := fun c cs => rfl
    rw [lower_cons, hcons, hcons, ih, Row.cons_lower]

theorem lines_lower (cs : List Char) : lines (lower cs) = (lines cs).map lower := by
  rw [lines, lines, rows_lower, List.map_map, List.map_map]
  rfl

theorem normalizeLine_lower (line : List Char) :
    normalizeLine (lower line) = lower (normalizeLine line) := by
  have hcomment : ∀ c : Char, decide (c.toLower ≠ ';') = decide (c ≠ ';') := by
    intro c
    simp only [ne_eq, toLower_eq_iff (w := ';') (by decide)]
  have hgap : ∀ c, isGap c.toLower = isGap c := by
    intro c
    rw [isGap, isGap, toLower_beq (by decide), toLower_beq (by decide)]
  rw [normalizeLine, normalizeLine, uncomment, uncomment, takeWhile_lower hcomment,
    collapse_lower hgap]

theorem intercalate_lower (sep : List Char) (lines : List (List Char)) :
    (lower sep).intercalate (lines.map lower) = lower (sep.intercalate lines) := by
  induction lines with
  | nil => rfl
  | cons line lines ih =>
    cases lines with
    | nil =>
      rw [List.map_singleton, List.intercalate_singleton, List.intercalate_singleton]
    | cons next lines =>
      rw [List.map_cons, List.map_cons, List.intercalate_cons_cons, List.intercalate_cons_cons,
        ← List.map_cons, ih, lower_append, lower_append]

theorem normalize_lower (cs : List Char) : normalize (lower cs) = lower (normalize cs) := by
  have hkept : (fun line => !allBlank line) ∘ lower = fun line => !allBlank line := by
    funext line
    exact congrArg (!·) (allBlank_lower line)
  have hlines : (lines cs |>.map lower).map normalizeLine
      = ((lines cs).map normalizeLine).map lower := by
    rw [List.map_map, List.map_map]
    exact List.map_congr_left fun line _ => normalizeLine_lower line
  rw [normalize, normalize, lines_lower, hlines, List.filter_map, hkept]
  exact intercalate_lower ['\n'] _

end Text
end PddlOutline
