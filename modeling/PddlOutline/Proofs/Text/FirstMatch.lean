import PddlOutline.Text.Basic

/-!
This module contains what the first match in a text is: a search answers with what is found at the
first place where something is found at all.
-/

namespace PddlOutline
namespace Text

variable {α : Type} {p : List Char → Prop} {f : List Char → Option α}

/--
Whether `rest` is what follows the first place of a text from which `p` holds.
-/
structure IsFirst (p : List Char → Prop) (cs rest : List Char) : Prop where
  isSuffix : rest <:+ cs
  holds : p rest
  longest : ∀ other, other <:+ cs → p other → other.length ≤ rest.length

theorem isFirst_nil {rest : List Char} : IsFirst p [] rest ↔ rest = [] ∧ p [] := by
  constructor
  . intro h
    have hrest : rest = [] := List.suffix_nil.mp h.isSuffix
    exact ⟨hrest, hrest ▸ h.holds⟩
  . rintro ⟨rfl, h⟩
    refine ⟨List.suffix_rfl, h, ?_⟩
    intro other hother _
    exact hother.length_le

theorem isFirst_of_pos {cs rest : List Char} (hcs : p cs) : IsFirst p cs rest ↔ rest = cs := by
  constructor
  . intro h
    exact h.isSuffix.eq_of_length_le (h.longest cs List.suffix_rfl hcs)
  . rintro rfl
    refine ⟨List.suffix_rfl, hcs, ?_⟩
    intro other hother _
    exact hother.length_le

theorem isFirst_cons_of_neg {c : Char} {cs rest : List Char} (hcs : ¬ p (c :: cs)) :
    IsFirst p (c :: cs) rest ↔ IsFirst p cs rest := by
  -- What `p` holds of cannot be the text as a whole.
  have hbehind : ∀ {part : List Char}, p part → (part <:+ c :: cs ↔ part <:+ cs) := by
    intro part hpart
    rw [List.suffix_cons_iff]
    refine or_iff_right ?_
    rintro rfl
    exact hcs hpart
  constructor
  . intro h
    refine ⟨(hbehind h.holds).mp h.isSuffix, h.holds, ?_⟩
    intro other hother hp
    exact h.longest other ((hbehind hp).mpr hother) hp
  . intro h
    refine ⟨(hbehind h.holds).mpr h.isSuffix, h.holds, ?_⟩
    intro other hother hp
    exact h.longest other ((hbehind hp).mp hother) hp

theorem firstMatch_eq_some_iff {cs : List Char} {a : α} :
    firstMatch f cs = some a ↔ ∃ rest, f rest = some a ∧ IsFirst (f · ≠ none) cs rest := by
  induction cs with
  | nil =>
    simp only [firstMatch, isFirst_nil]
    constructor
    . intro h
      exact ⟨[], h, rfl, by simp [h]⟩
    . rintro ⟨rest, h, rfl, _⟩
      exact h
  | cons c cs ih =>
    rw [firstMatch]
    cases hf : f (c :: cs) with
    | none =>
      have hfirst : ∀ rest, IsFirst (f · ≠ none) (c :: cs) rest ↔ IsFirst (f · ≠ none) cs rest :=
        fun _ => isFirst_cons_of_neg (by simp [hf])
      simp only [hfirst]
      exact ih
    | some b =>
      have hfirst : ∀ rest, IsFirst (f · ≠ none) (c :: cs) rest ↔ rest = c :: cs :=
        fun _ => isFirst_of_pos (by simp [hf])
      simp only [hfirst]
      constructor
      . intro h
        exact ⟨c :: cs, hf.trans h, rfl⟩
      . rintro ⟨rest, h, rfl⟩
        exact hf.symm.trans h

theorem firstMatch_eq_none_iff {cs : List Char} :
    firstMatch f cs = none ↔ ∀ rest, rest <:+ cs → f rest = none := by
  induction cs with
  | nil => simp [firstMatch]
  | cons c cs ih =>
    rw [firstMatch]
    simp only [List.suffix_cons_iff, forall_eq_or_imp]
    cases hf : f (c :: cs) with
    | none => simpa using ih
    | some b => simp

/--
Where a text is split before the first character that is not in `p`.
-/
theorem span_iff {p : Char → Bool} {cs front rest : List Char} :
    cs.takeWhile p = front ∧ cs.dropWhile p = rest ↔
      cs = front ++ rest ∧ (∀ c ∈ front, p c) ∧ ∀ c ∈ rest.head?, ¬ p c := by
  constructor
  . rintro ⟨rfl, rfl⟩
    refine ⟨List.takeWhile_append_dropWhile.symm, List.all_eq_true.mp List.all_takeWhile, ?_⟩
    intro c hc
    have hhead := List.head?_dropWhile_not p cs
    rw [hc] at hhead
    simpa using hhead
  . rintro ⟨rfl, hfront, hrest⟩
    rw [List.takeWhile_append_of_pos hfront, List.dropWhile_append_of_pos hfront]
    cases rest with
    | nil => simp
    | cons c rest => simp [hrest c rfl]

end Text
end PddlOutline
