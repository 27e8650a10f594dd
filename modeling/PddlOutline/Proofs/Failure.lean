import PddlOutline.Proofs.Action
import PddlOutline.Proofs.Parts
import PddlOutline.Reading.Domain
import PddlOutline.Reading.Problem

/-!
This module contains how reading fails: what the first section that cannot be read looks like, and
which sections and actions have been read before it. All that is said of errors is derived from it.
-/

namespace PddlOutline
namespace Fragment

/--
Whether the section of a keyword holds the forest `t`, in parentheses that open at `offset`. If they
do not open with the keyword, they follow it in the group of an action.
-/
def SectionAt (f : Fragment) (k : Keyword) (offset : Nat) (t : Forest) : Prop :=
  f.GroupAt offset t ∧ match k.form with
    | .block => offset ∈ f.places k
    | .value => ∃ (body : Fragment) (start : Nat) (tag gap : List Char),
      body.start ∈ f.places .action ∧ (∃ u : Forest, body.chars = u.enclosed) ∧ f.IsPart body
        ∧ body.IsPart ⟨start, tag ++ (gap ++ t.enclosed)⟩ ∧ k.Tag tag ∧ Text.allBlank gap
        ∧ offset = start + Text.byteSize (tag ++ gap)

/--
Whether the parentheses of the first section of a keyword match, if there is one.
-/
def ClosesFirst (f : Fragment) (k : Keyword) : Prop :=
  ∀ i ∈ (f.places k).head?, ∃ t, f.GroupAt i t

end Fragment

namespace ReadError

/--
The error blames a token of a section.
-/
inductive OfToken (f : Fragment) (k : Keyword) : ReadError → Prop
  | mk {offset : Nat} {t : Forest} {r : Fragment} {reason : Reason}
    (hsection : f.SectionAt k offset t) (hrun : (Fragment.mk (offset + 1) t.chars).IsRun r)
    (hblames : reason.Blames (.ofFragment r)) :
    OfToken f k (.malformed reason (Token.ofFragment r).span)

end ReadError

open ReadError

namespace Section

/--
How the section of a keyword that opens its group fails to be read.
-/
inductive Failure (f : Fragment) (k : Keyword) : ReadError → Prop
  | unclosed {i : Nat} (hi : (f.places k).head? = some i) (hopen : ∀ t, ¬ f.GroupAt i t) :
    Failure f k (.malformed .unclosed (some ⟨i, i + 1⟩))
  | token {e : ReadError} (h : OfToken f k e) : Failure f k e

variable {f : Fragment} {k : Keyword} {e : ReadError} {s : Section} {α : Type} {absent : α}
  {read : Section → Except ReadError α}

theorem failure_of_readD_error (hk : k.form = .block) (h : readD f k absent read = .error e)
    (hread : ∀ s t, s.Holds t → f.SectionAt k s.nesting.outer.opening t → read s = .error e →
      OfToken f k e) : Failure f k e := by
  unfold readD at h
  cases hplaces : (f.places k).head? with
  | none =>
    rw [first_of_nil (List.head?_eq_none_iff.mp hplaces)] at h
    cases h
  | some offset =>
    by_cases hclosed : ∃ t, f.GroupAt offset t
    . obtain ⟨t, ht⟩ := hclosed
      rw [first_of_groupAt hk hplaces ht] at h
      apply Failure.token
      refine hread _ t (holds_of_groupAt ht k) ⟨ht, ?_⟩ h
      rw [hk]
      exact List.mem_of_mem_head? hplaces
    . have hopen := not_exists.mp hclosed
      rw [first_of_forall_not_groupAt hk hplaces hopen] at h
      cases h
      exact .unclosed hplaces hopen

theorem closesFirst_of_readD_ok {a : α} (hk : k.form = .block)
    (h : readD f k absent read = .ok a) : f.ClosesFirst k := by
  intro i hi
  by_cases hclosed : ∃ t, f.GroupAt i t
  . exact hclosed
  . unfold readD at h
    rw [first_of_forall_not_groupAt hk hi (not_exists.mp hclosed)] at h
    cases h

theorem ofToken_of_tokens_error {t : Forest} (hholds : s.Holds t)
    (hsection : f.SectionAt k s.nesting.outer.opening t)
    {ofTokens : List Token → Except ReadError α} (h : s.tokens >>= ofTokens = .error e)
    (hblamed : ∀ tokens, ofTokens tokens = .error e →
      ∃ reason, ∃ token ∈ tokens, e = .malformed reason token.span ∧ reason.Blames token) :
    OfToken f k e := by
  obtain ⟨tokens, htokens, _, hruns⟩ := hholds.exists_tokens
  rw [htokens] at h
  obtain ⟨reason, token, htoken, rfl, hblames⟩ := hblamed tokens h
  obtain ⟨r, rfl, hrun⟩ := hruns token htoken
  exact .mk hsection hrun hblames

end Section

namespace Action

/--
How the action at a byte offset fails to be read.
-/
inductive Failure (f : Fragment) (offset : Nat) : ReadError → Prop
  | unclosed (hopen : ∀ t, ¬ f.GroupAt offset t) :
    Failure f offset (.malformed .unclosed (some ⟨offset, offset + 1⟩))
  | unnamed {t : Forest} (ht : f.GroupAt offset t) (hname : name? t.enclosed = none) :
    Failure f offset (.malformed .missingActionName (some ⟨offset, offset + Keyword.action.size⟩))
  | missing {t : Forest} {k : Keyword} (ht : f.GroupAt offset t) (hk : k.form = .value)
    (habsent : (Fragment.mk offset t.enclosed).places k = []) :
    Failure f offset (.missingSection k (some (Fragment.mk offset t.enclosed).span))
  | unopened {t : Forest} {k : Keyword} {front tag gap rest : List Char} (ht : f.GroupAt offset t)
    (hk : k.form = .value) (htag : k.Tag tag) (hgap : Text.IsPlain gap)
    (hclosing : t.enclosed = front ++ (tag ++ (gap ++ ')' :: rest))) :
    Failure f offset (.malformed .unopened (some ⟨offset + Text.byteSize (front ++ (tag ++ gap)),
      offset + Text.byteSize (front ++ (tag ++ gap)) + 1⟩))
  | valueless {t : Forest} {k : Keyword} {front tag rest : List Char} (ht : f.GroupAt offset t)
    (hk : k.form = .value) (htag : k.Tag tag) (hchars : t.enclosed = front ++ (tag ++ rest))
    (hfirst : Section.first ⟨offset, t.enclosed⟩ k = .error (.malformed (.missingValue k)
      (some ⟨offset + Text.byteSize front, offset + Text.byteSize front + k.size⟩))) :
    Failure f offset (.malformed (.missingValue k)
      (some ⟨offset + Text.byteSize front, offset + Text.byteSize front + k.size⟩))
  | token {e : ReadError} (h : OfToken f .parameters e) : Failure f offset e

variable {f : Fragment} {k : Keyword} {offset : Nat} {t : Forest} {e : ReadError}

theorem failure_of_needed_error (hk : k.form = .value) (ht : f.GroupAt offset t)
    (h : needed ⟨offset, t.enclosed⟩ k = .error e) : Failure f offset e := by
  rcases Section.first_value_cases hk t with hnone
    | ⟨front, tag, gap, rest, hchars, htag, hgap, hclosing⟩
    | ⟨front, tag, rest, hchars, htag, hvalue⟩ | ⟨_, _, _, _, _, _, _, _, hfound⟩
  . rw [needed_of_none (hnone offset).2] at h
    cases h
    exact .missing ht hk (hnone offset).1
  . rw [needed_of_error (hclosing offset)] at h
    cases h
    exact .unopened ht hk htag hgap hchars
  . rw [needed_of_error (hvalue offset)] at h
    cases h
    exact .valueless ht hk htag hchars (hvalue offset)
  . rw [needed_of_some (hfound offset)] at h
    cases h

theorem exists_of_needed_ok {s : Section} (hk : k.form = .value)
    (ho : offset ∈ f.places .action) (ht : f.GroupAt offset t)
    (h : needed ⟨offset, t.enclosed⟩ k = .ok s) :
    ∃ u, s.Holds u ∧ f.SectionAt k s.nesting.outer.opening u := by
  have hbody : f.IsPart ⟨offset, t.enclosed⟩ := Fragment.groupAt_iff_isPart.mp ht
  rcases Section.first_value_cases hk t with hnone | ⟨_, _, _, _, _, _, _, hclosing⟩
    | ⟨_, _, _, _, _, hvalue⟩ | ⟨front, tag, gap, rest, u, hchars, htag, hblank, hfound⟩
  . rw [needed_of_none (hnone offset).2] at h
    cases h
  . rw [needed_of_error (hclosing offset)] at h
    cases h
  . rw [needed_of_error (hvalue offset)] at h
    cases h
  . rw [needed_of_some (hfound offset)] at h
    cases h
    have hgroup : (Fragment.mk offset t.enclosed).GroupAt
        (offset + Text.byteSize (front ++ (tag ++ gap))) u :=
      ⟨front ++ (tag ++ gap), rest, by simp [hchars], rfl⟩
    have htagged : (Fragment.mk offset t.enclosed).IsPart
        ⟨offset + Text.byteSize front, tag ++ (gap ++ u.enclosed)⟩ :=
      ⟨front, rest, by simp [hchars], rfl⟩
    refine ⟨u, Section.holds_of_groupAt hgroup k, ?_, ?_⟩
    . exact hbody.trans (Fragment.groupAt_iff_isPart.mp hgroup)
    . rw [hk]
      refine ⟨_, _, tag, gap, ho, ⟨t, rfl⟩, hbody, htagged, htag, hblank, ?_⟩
      show offset + Text.byteSize (front ++ (tag ++ gap)) = _
      rw [Text.byteSize_append front, Nat.add_assoc]

theorem failure_of_parametersOf_error (ho : offset ∈ f.places .action) (ht : f.GroupAt offset t)
    (h : parametersOf ⟨offset, t.enclosed⟩ = .error e) : Failure f offset e := by
  rw [parametersOf, Outcome.bind_eq_error] at h
  rcases h with h | ⟨s, hneeded, h⟩
  . exact failure_of_needed_error rfl ht h
  . obtain ⟨u, hholds, hsection⟩ := exists_of_needed_ok rfl ho ht hneeded
    apply Failure.token
    apply Section.ofToken_of_tokens_error hholds hsection h
    intro tokens
    exact Parameters.exists_blamed

theorem failure_of_expressionsOf_error (hk : k.form = .value) (ho : offset ∈ f.places .action)
    (ht : f.GroupAt offset t) (h : expressionsOf ⟨offset, t.enclosed⟩ k = .error e) :
    Failure f offset e := by
  rw [expressionsOf, Outcome.bind_eq_error] at h
  rcases h with h | ⟨s, hneeded, h⟩
  . exact failure_of_needed_error hk ht h
  . -- The expressions of a section that was found can always be read.
    obtain ⟨u, hholds, _⟩ := exists_of_needed_ok hk ho ht hneeded
    rw [hholds.expressions_eq] at h
    cases h

theorem failure_of_ofFragment_error (ho : offset ∈ f.places .action) (ht : f.GroupAt offset t)
    (h : ofFragment ⟨offset, t.enclosed⟩ = .error e) : Failure f offset e := by
  cases hname : name? t.enclosed with
  | none =>
    rw [ofFragment_of_name_none ⟨offset, t.enclosed⟩ hname] at h
    cases h
    exact .unnamed ht hname
  | some name =>
    rw [ofFragment_of_name ⟨offset, t.enclosed⟩ hname, Outcome.bind_eq_error] at h
    rcases h with h | ⟨_, _, h⟩
    . exact failure_of_parametersOf_error ho ht h
    rw [Outcome.bind_eq_error] at h
    rcases h with h | ⟨_, _, h⟩
    . exact failure_of_expressionsOf_error rfl ho ht h
    rw [Outcome.bind_eq_error] at h
    rcases h with h | ⟨_, _, h⟩
    . exact failure_of_expressionsOf_error rfl ho ht h
    . cases h

theorem failure_of_read_error (ho : offset ∈ f.places .action)
    (h : read f offset = .error e) : Failure f offset e := by
  by_cases hclosed : ∃ t, f.GroupAt offset t
  . obtain ⟨t, ht⟩ := hclosed
    rw [read_of_groupAt ht] at h
    exact failure_of_ofFragment_error ho ht h
  . have hopen := not_exists.mp hclosed
    rw [read_of_forall_not_groupAt ho hopen] at h
    cases h
    exact .unclosed hopen

theorem exists_groupAt_of_read_ok {a : Action} (ho : offset ∈ f.places .action)
    (h : read f offset = .ok a) : ∃ t, f.GroupAt offset t := by
  by_cases hclosed : ∃ t, f.GroupAt offset t
  . exact hclosed
  . rw [read_of_forall_not_groupAt ho (not_exists.mp hclosed)] at h
    cases h

end Action

namespace Domain

/--
The keywords of the sections of a domain, of which only the first counts.
-/
def keywords : List Keyword :=
  [.requirements, .types, .constants, .predicates]

variable {f : Fragment} {e : ReadError} {d : Document}

theorem failure_of_readTypedList_error {k : Keyword} (hk : k.form = .block)
    (h : Section.readD f k .empty Section.typedList = .error e) : Section.Failure f k e := by
  apply Section.failure_of_readD_error hk h
  intro s t hholds hsection h
  apply Section.ofToken_of_tokens_error hholds hsection h
  intro tokens
  exact TypedList.exists_blamed

theorem failure_of_readRequirements_error (h : readRequirements f = .error e) :
    Section.Failure f .requirements e := by
  apply Section.failure_of_readD_error rfl h
  intro s t hholds _ h
  have hsymbols : s.tokens.map (·.map Token.symbol) = .error e := h
  rw [hholds.symbols_eq] at hsymbols
  cases hsymbols

theorem failure_of_readPredicates_error (h : readPredicates f = .error e) :
    Section.Failure f .predicates e := by
  apply Section.failure_of_readD_error rfl h
  intro s t hholds _ h
  rw [hholds.parts_eq] at h
  cases h

/--
The actions before the one that fails have all been read.
-/
theorem failure_of_readActions_error {offsets : List Nat}
    (ho : ∀ offset ∈ offsets, offset ∈ f.places .action)
    (h : (readActions f offsets).outcome = .error e) :
    ∃ before offset after, offsets = before ++ offset :: after
      ∧ (∀ i ∈ before, ∃ t, f.GroupAt i t) ∧ Action.Failure f offset e := by
  induction offsets with
  | nil => cases h
  | cons offset offsets ih =>
    simp only [readActions, Traced.outcome_bind, Traced.outcome_ofExcept, Traced.outcome_emit,
      Traced.outcome_pure] at h
    rw [Outcome.bind_eq_error] at h
    rcases h with h | ⟨a, hread, h⟩
    . exact ⟨[], offset, offsets, rfl, by simp,
        Action.failure_of_read_error (ho offset List.mem_cons_self) h⟩
    rw [Outcome.bind_eq_error] at h
    rcases h with h | ⟨_, _, h⟩
    . cases h
    rw [Outcome.bind_eq_error] at h
    rcases h with h | ⟨_, _, h⟩
    . obtain ⟨before, i, after, rfl, hbefore, hfailure⟩ :=
        ih (fun i hi => ho i (List.mem_cons_of_mem offset hi)) h
      refine ⟨offset :: before, i, after, rfl, ?_, hfailure⟩
      intro j hj
      cases List.mem_cons.mp hj with
      | inl hj =>
        rw [hj]
        exact Action.exists_groupAt_of_read_ok (ho offset List.mem_cons_self) hread
      | inr hj => exact hbefore j hj
    . cases h

theorem readName_ne_error (cs : List Char) (e : ReadError) :
    (readName cs).outcome ≠ .error e := by
  unfold readName
  split
  . exact nofun
  . exact nofun

theorem closesFirst_of_sections_ok {requirements predicates : List String}
    {types constants : TypedList} (hrequirements : readRequirements f = .ok requirements)
    (htypes : readTypedList f .types = .ok types)
    (hconstants : readTypedList f .constants = .ok constants)
    (hpredicates : readPredicates f = .ok predicates) : ∀ k ∈ keywords, f.ClosesFirst k := by
  intro k hk
  simp only [keywords, List.mem_cons, List.not_mem_nil, or_false] at hk
  rcases hk with rfl | rfl | rfl | rfl
  . exact Section.closesFirst_of_readD_ok rfl hrequirements
  . exact Section.closesFirst_of_readD_ok rfl htypes
  . exact Section.closesFirst_of_readD_ok rfl hconstants
  . exact Section.closesFirst_of_readD_ok rfl hpredicates

theorem failure_of_read_error (h : (read d).outcome = .error e) :
    (∃ k ∈ keywords, Section.Failure d.fragment k e)
      ∨ (∀ k ∈ keywords, d.fragment.ClosesFirst k)
        ∧ ∃ before offset after, d.fragment.places .action = before ++ offset :: after
          ∧ (∀ i ∈ before, ∃ t, d.fragment.GroupAt i t) ∧ Action.Failure d.fragment offset e := by
  unfold read at h
  simp only [Traced.outcome_bind, Traced.outcome_ofExcept, Traced.outcome_pure] at h
  rw [Outcome.bind_eq_error] at h
  rcases h with h | ⟨_, _, h⟩
  . exact absurd h (readName_ne_error d.chars e)
  rw [Outcome.bind_eq_error] at h
  rcases h with h | ⟨_, hrequirements, h⟩
  . exact .inl ⟨.requirements, by decide, failure_of_readRequirements_error h⟩
  rw [Outcome.bind_eq_error] at h
  rcases h with h | ⟨_, htypes, h⟩
  . exact .inl ⟨.types, by decide, failure_of_readTypedList_error rfl h⟩
  rw [Outcome.bind_eq_error] at h
  rcases h with h | ⟨_, hconstants, h⟩
  . exact .inl ⟨.constants, by decide, failure_of_readTypedList_error rfl h⟩
  rw [Outcome.bind_eq_error] at h
  rcases h with h | ⟨_, hpredicates, h⟩
  . exact .inl ⟨.predicates, by decide, failure_of_readPredicates_error h⟩
  rw [Outcome.bind_eq_error] at h
  rcases h with h | ⟨_, _, h⟩
  . exact .inr ⟨closesFirst_of_sections_ok hrequirements htypes hconstants hpredicates,
      failure_of_readActions_error (fun _ ho => ho) h⟩
  . cases h

end Domain

namespace Problem

/--
The keywords of the sections of a problem, of which only the first counts.
-/
def keywords : List Keyword :=
  [.objects, .init, .goal]

variable {f : Fragment} {e : ReadError} {d : Document}

theorem failure_of_readExpressions_error {k : Keyword} (hk : k.form = .block)
    (h : readExpressions f k = .error e) : Section.Failure f k e := by
  apply Section.failure_of_readD_error hk h
  intro s t hholds _ h
  rw [hholds.expressions_eq] at h
  cases h

theorem readNames_ne_error (cs : List Char) (e : ReadError) :
    (readNames cs).outcome ≠ .error e := by
  unfold readNames
  split
  . exact nofun
  . exact nofun

theorem failure_of_read_error (h : (read d).outcome = .error e) :
    ∃ k ∈ keywords, Section.Failure d.fragment k e := by
  unfold read at h
  simp only [Traced.outcome_bind, Traced.outcome_ofExcept, Traced.outcome_pure] at h
  rw [Outcome.bind_eq_error] at h
  rcases h with h | ⟨_, _, h⟩
  . exact absurd h (readNames_ne_error d.chars e)
  rw [Outcome.bind_eq_error] at h
  rcases h with h | ⟨_, _, h⟩
  . exact ⟨.objects, by decide, Domain.failure_of_readTypedList_error rfl h⟩
  rw [Outcome.bind_eq_error] at h
  rcases h with h | ⟨_, _, h⟩
  . exact ⟨.init, by decide, failure_of_readExpressions_error rfl h⟩
  rw [Outcome.bind_eq_error] at h
  rcases h with h | ⟨_, _, h⟩
  . exact ⟨.goal, by decide, failure_of_readExpressions_error rfl h⟩
  . cases h

end Problem
end PddlOutline
