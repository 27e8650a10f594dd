import PddlOutline.Proofs.Text.FirstMatch
import PddlOutline.Proofs.Text.Spacing

/-!
This module contains texts that differ in their blank parts alone. They are the same once their
blanks are collapsed, and a search that takes one blank for another finds the same in a text and in
the collapsed text.
-/

namespace PddlOutline
namespace Text

variable {α : Type} {cs cs' : List Char}

def IsGap (cs : List Char) : Prop :=
  cs ≠ [] ∧ ∀ c ∈ cs, isBlank c

instance (cs : List Char) : Decidable (IsGap cs) :=
  inferInstanceAs (Decidable (_ ∧ _))

/--
Whether texts are the same but for other blanks in place of some of their blanks.
-/
inductive IsRespaced : List Char → List Char → Prop
  | nil : IsRespaced [] []
  | cons (c : Char) {cs cs' : List Char} (h : IsRespaced cs cs') : IsRespaced (c :: cs) (c :: cs')
  | gap {gap gap' cs cs' : List Char} (hgap : IsGap gap) (hgap' : IsGap gap')
    (h : IsRespaced cs cs') : IsRespaced (gap ++ cs) (gap' ++ cs')

namespace IsRespaced

theorem append (shared : List Char) (h : IsRespaced cs cs') :
    IsRespaced (shared ++ cs) (shared ++ cs') := by
  induction shared with
  | nil => exact h
  | cons c shared ih => exact .cons c ih

theorem refl (cs : List Char) : IsRespaced cs cs := by
  have h := append cs .nil
  rwa [List.append_nil] at h

end IsRespaced

/-! Texts whose blanks are collapsed. -/

section Collapse

variable {c d : Char}

theorem collapse_blank (hc : isBlank c) (cs : List Char) :
    collapse isBlank (c :: cs) =
      if (collapse isBlank cs).head? = some ' ' then collapse isBlank cs
      else ' ' :: collapse isBlank cs := by
  rw [collapse_cons, if_pos hc]

theorem collapse_solid (hc : ¬ isBlank c) (cs : List Char) :
    collapse isBlank (c :: cs) = c :: collapse isBlank cs := by
  rw [collapse_cons, if_neg hc]

theorem exists_collapse_blank (hc : isBlank c) (cs : List Char) :
    ∃ rest, collapse isBlank (c :: cs) = ' ' :: rest := by
  rw [collapse_blank hc]
  split
  next h => exact List.head?_eq_some_iff.mp h
  next => exact ⟨_, rfl⟩

theorem collapse_blank_blank (hc : isBlank c) (hd : isBlank d) (cs : List Char) :
    collapse isBlank (c :: d :: cs) = collapse isBlank (d :: cs) := by
  obtain ⟨rest, hrest⟩ := exists_collapse_blank hd cs
  rw [collapse_blank hc, if_pos]
  rw [hrest, List.head?_cons]

theorem collapse_gap {gap : List Char} (hgap : IsGap gap) (cs : List Char) :
    collapse isBlank (gap ++ cs) = collapse isBlank (' ' :: cs) := by
  obtain ⟨hne, hblank⟩ := hgap
  induction gap with
  | nil => exact absurd rfl hne
  | cons c gap ih =>
    rw [List.forall_mem_cons] at hblank
    cases gap with
    | nil => rw [List.singleton_append, collapse_blank hblank.1, collapse_blank (by decide)]
    | cons d gap =>
      have hd : isBlank d := hblank.2 d List.mem_cons_self
      rw [List.cons_append, List.cons_append, collapse_blank_blank hblank.1 hd, ← List.cons_append]
      exact ih (List.cons_ne_nil d gap) hblank.2

theorem collapse_eq_append_iff {as rest : List Char} (has : ∀ a ∈ as, ¬ isBlank a) :
    collapse isBlank cs = as ++ rest ↔
      ∃ behind, cs = as ++ behind ∧ collapse isBlank behind = rest := by
  constructor
  . intro h
    induction as generalizing cs with
    | nil => exact ⟨cs, rfl, h⟩
    | cons a as ih =>
      rw [List.forall_mem_cons] at has
      cases cs with
      | nil => cases h
      | cons c cs =>
        have hc : ¬ isBlank c := by
          intro hc
          obtain ⟨rest', hspace⟩ := exists_collapse_blank hc cs
          rw [hspace] at h
          obtain ⟨rfl, _⟩ := List.cons.inj h
          exact has.1 (by decide)
        rw [collapse_solid hc] at h
        obtain ⟨rfl, hrest⟩ := List.cons.inj h
        obtain ⟨behind, rfl, hbehind⟩ := ih has.2 hrest
        exact ⟨behind, rfl, hbehind⟩
  . rintro ⟨behind, rfl, rfl⟩
    exact (IsSpaced.of_forall_not has).collapse_append

end Collapse

theorem IsRespaced.collapse_eq (h : IsRespaced cs cs') :
    collapse isBlank cs = collapse isBlank cs' := by
  induction h with
  | nil => rfl
  | cons c _ ih => rw [collapse_cons, collapse_cons, ih]
  | gap hgap hgap' _ ih =>
    rw [collapse_gap hgap, collapse_gap hgap', collapse_cons, collapse_cons, ih]

/--
A search that finds nothing at a blank finds the same in a text whose blanks are collapsed.
-/
theorem firstMatch_collapse {f : List Char → Option α}
    (hf : ∀ cs, f (collapse isBlank cs) = f cs) (hblank : ∀ c cs, isBlank c → f (c :: cs) = none)
    (cs : List Char) : firstMatch f (collapse isBlank cs) = firstMatch f cs := by
  induction cs with
  | nil => rfl
  | cons c cs ih =>
    by_cases hc : isBlank c
    . rw [firstMatch, hblank c cs hc, ← ih, collapse_blank hc]
      split
      next => rfl
      next => rw [firstMatch, hblank ' ' _ (by decide)]
    . rw [collapse_solid hc, firstMatch, firstMatch, ih, ← collapse_solid hc, hf]

end Text
end PddlOutline
