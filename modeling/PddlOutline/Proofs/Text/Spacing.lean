import Mathlib.Data.List.TakeWhile
import PddlOutline.Document

/-!
This module contains texts in which all spaces are single. The normalization of a document leaves
such a text alone if it is a single line without comments.
-/

namespace PddlOutline
namespace Text

theorem isBlank_of_isGap {c : Char} (h : isGap c) : isBlank c := by
  rw [isGap, Bool.or_eq_true, beq_iff_eq, beq_iff_eq] at h
  rcases h with rfl | rfl
  . decide
  . decide

/--
Whether each character in `p` is a space and comes right before a character that is not in `p`.
-/
def IsSpaced (p : Char → Bool) : List Char → Prop
  | [] => True
  | c :: cs => (p c → c = ' ' ∧ ∃ d ∈ cs.head?, ¬ p d) ∧ IsSpaced p cs

instance IsSpaced.decide (p : Char → Bool) : (cs : List Char) → Decidable (IsSpaced p cs)
  | [] => .isTrue trivial
  | c :: cs =>
    have := IsSpaced.decide p cs
    inferInstanceAs (Decidable ((p c → c = ' ' ∧ ∃ d ∈ cs.head?, ¬ p d) ∧ IsSpaced p cs))

namespace IsSpaced

variable {p : Char → Bool} {as bs : List Char}

theorem of_forall_not (h : ∀ c ∈ as, ¬ p c) : IsSpaced p as := by
  induction as with
  | nil => exact trivial
  | cons c as ih =>
    constructor
    . intro hc
      exact absurd hc (h c List.mem_cons_self)
    . apply ih
      intro d hd
      exact h d (List.mem_cons_of_mem c hd)

theorem append (has : IsSpaced p as) (hbs : IsSpaced p bs) : IsSpaced p (as ++ bs) := by
  induction as with
  | nil => exact hbs
  | cons c as ih =>
    refine ⟨?_, ih has.2⟩
    intro hc
    obtain ⟨hspace, d, hd, hnot⟩ := has.1 hc
    refine ⟨hspace, d, ?_, hnot⟩
    rw [Option.mem_def] at hd
    simp [hd]

theorem space {d : Char} (hd : ¬ p d) (h : IsSpaced p (d :: as)) : IsSpaced p (' ' :: d :: as) :=
  ⟨fun _ => ⟨rfl, d, rfl, hd⟩, h⟩

theorem collapse_append (h : IsSpaced p as) : collapse p (as ++ bs) = as ++ collapse p bs := by
  induction as with
  | nil => rfl
  | cons c as ih =>
    rw [List.cons_append, collapse_cons, ih h.2]
    split
    next hc =>
      obtain ⟨rfl, d, hd, hnot⟩ := h.1 hc
      rw [if_neg]
      . rfl
      . -- The space is not followed by another one.
        intro hspace
        have hhead : (as ++ collapse p bs).head? = some d := by
          rw [Option.mem_def] at hd
          simp [hd]
        rw [hhead, Option.some.injEq] at hspace
        rw [hspace] at hnot
        exact hnot hc
    next => rfl

end IsSpaced

theorem rows_of_not_mem {cs : List Char} (h : '\n' ∉ cs) (hne : cs ≠ []) :
    rows cs = [⟨cs, []⟩] := by
  induction cs with
  | nil => exact absurd rfl hne
  | cons c cs ih =>
    rw [List.mem_cons, not_or] at h
    rw [rows, List.foldr_cons, ← rows]
    cases cs with
    | nil => exact if_neg (Ne.symm h.1)
    | cons d cs =>
      rw [ih h.2 (List.cons_ne_nil d cs), Row.cons, if_neg (Ne.symm h.1), if_neg]
      simp

theorem lines_of_not_mem {cs : List Char} (h : '\n' ∉ cs) (hne : cs ≠ []) : lines cs = [cs] := by
  rw [lines, rows_of_not_mem h hne]
  rfl

/--
Whether a text is part of a single line without comments in which all spaces are single.
-/
def IsLine (cs : List Char) : Prop :=
  IsSpaced isGap cs ∧ ∀ c ∈ cs, c ≠ ';' ∧ c ≠ '\n'

instance (cs : List Char) : Decidable (IsLine cs) :=
  inferInstanceAs (Decidable (IsSpaced isGap cs ∧ ∀ c ∈ cs, c ≠ ';' ∧ c ≠ '\n'))

namespace IsLine

theorem append {as bs : List Char} (has : IsLine as) (hbs : IsLine bs) : IsLine (as ++ bs) := by
  refine ⟨has.1.append hbs.1, ?_⟩
  intro c hc
  cases List.mem_append.mp hc with
  | inl hc => exact has.2 c hc
  | inr hc => exact hbs.2 c hc

theorem of_forall {cs : List Char} (h : ∀ c ∈ cs, ¬ isGap c ∧ c ≠ ';' ∧ c ≠ '\n') : IsLine cs :=
  ⟨.of_forall_not fun c hc => (h c hc).1, fun c hc => (h c hc).2⟩

theorem space {c : Char} {cs : List Char} (hc : ¬ isGap c) (h : IsLine (c :: cs)) :
    IsLine (' ' :: c :: cs) := by
  refine ⟨h.1.space hc, ?_⟩
  intro d hd
  cases List.mem_cons.mp hd with
  | inl hd =>
    rw [hd]
    decide
  | inr hd => exact h.2 d hd

theorem normalize_eq {cs : List Char} (h : IsLine cs) (hsolid : ∃ c ∈ cs, ¬ isBlank c) :
    normalize cs = cs := by
  obtain ⟨c, hc, hblank⟩ := hsolid
  have hlines : lines cs = [cs] := by
    apply lines_of_not_mem
    . intro hnewline
      exact (h.2 _ hnewline).2 rfl
    . exact List.ne_nil_of_mem hc
  have huncomment : uncomment cs = cs := by
    rw [uncomment, List.takeWhile_eq_self_iff]
    intro d hd
    simpa using (h.2 d hd).1
  have hcollapse : collapse isGap cs = cs := by
    have : collapse isGap (cs ++ []) = cs ++ [] := h.1.collapse_append
    simpa using this
  have hkept : allBlank cs = false := by
    rw [Bool.eq_false_iff]
    intro hall
    exact hblank (List.all_eq_true.mp hall c hc)
  rw [normalize, hlines, List.map_singleton, normalizeLine, huncomment, hcollapse]
  simp [hkept, List.intercalate]

end IsLine
end Text
end PddlOutline
