import PddlOutline.Proofs.Failure

/-!
This module contains where errors are located: on a part of the text that is not empty and that is
what the error talks about.
-/

namespace PddlOutline
namespace Fragment

/--
Whether a part of the text is delimited by blanks and the parentheses of a section.
-/
def IsTokenOf (f part : Fragment) : Prop :=
  ∃ k offset t, f.SectionAt k offset t ∧ (Fragment.mk (offset + 1) t.chars).IsRun part

end Fragment

namespace ReadError

/--
What an error says of the part of the text that it is located at.
-/
def Describes (f part : Fragment) : ReadError → Prop
  | .missingSection k _ =>
    k.form = .value ∧ part.start ∈ f.places .action ∧ (∃ t : Forest, part.chars = t.enclosed)
      ∧ part.places k = []
  | .malformed .unopened _ => part.chars = [')']
  | .malformed .unclosed _ =>
    part.chars = ['('] ∧ (∃ k : Keyword, k.form = .block ∧ part.start ∈ f.places k)
      ∧ ∀ t, ¬ f.GroupAt part.start t
  | .malformed (.missingValue k) _ => k.form = .value ∧ k.Tag part.chars
  | .malformed .missingActionName _ => Keyword.action.Tag part.chars
  | .malformed .missingType _ => f.IsTokenOf part ∧ part.chars = ['-']
  | .malformed .expectedType _ =>
    f.IsTokenOf part ∧ (part.chars = ['-'] ∨ part.chars.head? = some '?')
  | .malformed .orphanType _ =>
    f.IsTokenOf part ∧ part.chars ≠ ['-'] ∧ part.chars.head? ≠ some '?'
  | .outOfRange _ => False

def IsLocated (f : Fragment) (e : ReadError) : Prop :=
  ∃ part : Fragment, e.span? = some part.span ∧ part.span.start < part.span.stop
    ∧ f.slice? part.span = some part ∧ e.Describes f part

theorem isLocated_of_isPart {f part : Fragment} {e : ReadError} (hspan : e.span? = some part.span)
    (hpart : f.IsPart part) (hne : part.chars ≠ []) (h : e.Describes f part) : e.IsLocated f :=
  ⟨part, hspan, Fragment.start_lt_stop hne, hpart.slice?_eq, h⟩

theorem OfToken.isLocated {f : Fragment} {k : Keyword} {e : ReadError} (h : OfToken f k e) :
    e.IsLocated f := by
  obtain @⟨offset, t, r, reason, hsection, hrun, hblames⟩ := h
  have htoken : f.IsTokenOf r := ⟨k, offset, t, hsection, hrun⟩
  have hseparator : (Token.ofFragment r).isSeparator ↔ r.chars = ['-'] := by
    rw [Token.isSeparator, Token.ofFragment, Fragment.text, beq_iff_eq,
      show "-" = String.ofList ['-'] from rfl, String.ofList_inj]
  have hvariable : (Token.ofFragment r).isVariable ↔ r.chars.head? = some '?' := by
    rw [Token.isVariable, Token.ofFragment, Fragment.text, beq_iff_eq, String.toList_ofList]
  have hne : r.chars ≠ [] := by
    obtain ⟨_, _, _, _, hne, _⟩ := hrun
    exact hne
  apply isLocated_of_isPart rfl (hsection.1.isPart_inside.trans hrun.isPart) hne
  -- No other reason blames a token.
  cases reason with
  | missingType => exact ⟨htoken, hseparator.mp hblames⟩
  | expectedType => exact ⟨htoken, hblames.imp hseparator.mp hvariable.mp⟩
  | orphanType =>
    exact ⟨htoken, fun h => hblames.1 (hseparator.mpr h), fun h => hblames.2 (hvariable.mpr h)⟩
  | _ => exact hblames.elim

theorem isLocated_of_forall_not_groupAt {f : Fragment} {k : Keyword} {offset : Nat}
    (hk : k.form = .block) (ho : offset ∈ f.places k) (h : ∀ t, ¬ f.GroupAt offset t) :
    (malformed .unclosed (some ⟨offset, offset + 1⟩)).IsLocated f := by
  apply isLocated_of_isPart rfl (Fragment.isPart_opening_of_mem_places hk ho)
    (List.cons_ne_nil _ _)
  exact ⟨rfl, ⟨k, hk, ho⟩, h⟩

end ReadError

theorem Section.Failure.isLocated {f : Fragment} {k : Keyword} {e : ReadError}
    (hk : k.form = .block) (h : Section.Failure f k e) : e.IsLocated f := by
  cases h with
  | unclosed hi hopen =>
    exact ReadError.isLocated_of_forall_not_groupAt hk (List.mem_of_mem_head? hi) hopen
  | token h => exact h.isLocated

theorem Action.Failure.isLocated {f : Fragment} {offset : Nat} {e : ReadError}
    (ho : offset ∈ f.places .action) (h : Action.Failure f offset e) : e.IsLocated f := by
  -- What is part of the action is part of `f`.
  have hbody : ∀ {t : Forest} {front part rest : List Char}, f.GroupAt offset t →
      t.enclosed = front ++ (part ++ rest) →
        f.IsPart ⟨offset + Text.byteSize front, part⟩ := by
    intro t front part rest ht hchars
    exact (Fragment.groupAt_iff_isPart.mp ht).trans ⟨front, rest, hchars, rfl⟩
  cases h with
  | unclosed hopen => exact ReadError.isLocated_of_forall_not_groupAt rfl ho hopen
  | unnamed ht hname =>
    obtain ⟨tag, htag, hpart⟩ := Fragment.exists_tag_of_mem_places ho
    apply ReadError.isLocated_of_isPart _ hpart htag.ne_nil
    . exact htag
    . rw [Fragment.span, Fragment.stop, htag.byteSize_eq]
      rfl
  | @missing t k ht hk habsent =>
    apply ReadError.isLocated_of_isPart rfl (Fragment.groupAt_iff_isPart.mp ht)
      (List.cons_ne_nil _ _)
    exact ⟨hk, ho, ⟨t, rfl⟩, habsent⟩
  | @unopened t k front tag gap rest ht hk htag hgap hclosing =>
    have hchars : t.enclosed = (front ++ (tag ++ gap)) ++ ([')'] ++ rest) := by simp [hclosing]
    exact ReadError.isLocated_of_isPart rfl (hbody ht hchars) (List.cons_ne_nil _ _) rfl
  | valueless ht hk htag hchars =>
    apply ReadError.isLocated_of_isPart _ (hbody ht hchars) htag.ne_nil
    . exact ⟨hk, htag⟩
    . rw [Fragment.span, Fragment.stop, htag.byteSize_eq]
      rfl
  | token h => exact h.isLocated

theorem Domain.isLocated_of_read_error {d : Document} {e : ReadError}
    (h : (Domain.read d).outcome = .error e) : e.IsLocated d.fragment := by
  rcases Domain.failure_of_read_error h with ⟨k, hk, hfailure⟩
    | ⟨_, before, offset, after, hplaces, _, hfailure⟩
  . have hblock : ∀ k ∈ Domain.keywords, k.form = .block := by decide
    exact hfailure.isLocated (hblock k hk)
  . apply hfailure.isLocated
    simp [hplaces]

theorem Problem.isLocated_of_read_error {d : Document} {e : ReadError}
    (h : (Problem.read d).outcome = .error e) : e.IsLocated d.fragment := by
  obtain ⟨k, hk, hfailure⟩ := Problem.failure_of_read_error h
  have hblock : ∀ k ∈ Problem.keywords, k.form = .block := by decide
  exact hfailure.isLocated (hblock k hk)

/--
Every failure of a reader comes with the part of the text that it is about.
-/
theorem read_error_isLocated (d : Document) (e : ReadError)
    (h : (Domain.read d).outcome = .error e ∨ (Problem.read d).outcome = .error e) :
    e.IsLocated d.fragment := by
  cases h with
  | inl h => exact Domain.isLocated_of_read_error h
  | inr h => exact Problem.isLocated_of_read_error h

theorem read_error_isLocated_unclosed :
    (ReadError.malformed .unclosed (some ⟨8, 9⟩)).IsLocated
      (Document.ofString "(define (:types a").fragment := by
  apply read_error_isLocated
  left
  rfl

end PddlOutline
