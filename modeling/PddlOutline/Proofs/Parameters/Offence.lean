import Mathlib.Data.List.DropRight
import Mathlib.Data.Nat.Find
import PddlOutline.Proofs.Parameters.Grammar

/-!
This module contains the tokens that do not fit into a list of parameters. Whether a token fits is
said with the tokens before it that wait for a type. A list is refused because of the leftmost token
that does not fit, and is read if there is none.
-/

namespace PddlOutline
namespace Parameters

/--
The tokens behind the last type.
-/
def waiting (front : List Token) : List Token :=
  front.rtakeWhile (!·.isType)

/--
Whether the token between `front` and `rest` does not fit into a list of parameters, and for which
reason.
-/
inductive Offends (front : List Token) (t : Token) (rest : List Token) : Reason → Prop
  | expectedType (hpending : ∃ s ∈ waiting front, s.isSeparator)
      (ht : t.isSeparator ∨ t.isVariable) : Offends front t rest .expectedType
  | orphanType (hnone : ∀ v ∈ waiting front, ¬ v.isVariable) (ht : t.isType) :
      Offends front t rest .orphanType
  | missingType (hfirst : ∀ s ∈ waiting front, ¬ s.isSeparator) (ht : t.isSeparator)
      (hlast : rest = []) : Offends front t rest .missingType

structure IsLeftmostOffence (tokens front : List Token) (t : Token) (rest : List Token)
    (reason : Reason) : Prop where
  eq_append : tokens = front ++ t :: rest
  offends : Offends front t rest reason
  length_le : ∀ front' t' rest' reason', tokens = front' ++ t' :: rest' →
    Offends front' t' rest' reason' → front.length ≤ front'.length

variable {front mid rest tokens : List Token} {t : Token} {reason : Reason}

theorem waiting_type (h : t.isType) : waiting (front ++ [t]) = [] :=
  List.rtakeWhile_concat_neg _ _ _ (by simp [h])

theorem waiting_of_not_isType (h : ¬ t.isType) : waiting (front ++ [t]) = waiting front ++ [t] :=
  List.rtakeWhile_concat_pos _ _ _ (by simp [h])

/--
Read what is behind `front`, of which all tokens fit.
-/
def resume (front rest : List Token) : Except ReadError Parameters :=
  ofTokens.go ((waiting front).countP Token.isVariable) ((waiting front).find? Token.isSeparator)
    rest

theorem resume_of_offends (h : Offends front t rest reason) :
    resume front (t :: rest) = .error (.malformed reason t.span) := by
  cases h with
  | expectedType hpending ht =>
    have hsome : ((waiting front).find? Token.isSeparator).isSome := List.find?_isSome.mpr hpending
    rcases ht with hsep | hvar
    . rw [resume, ofTokens.go, if_pos hsep, if_pos hsome]
    . rw [resume, ofTokens.go, if_neg (Token.not_isSeparator_of_isVariable hvar), if_pos hvar,
        if_pos hsome]
  | orphanType hnone ht =>
    obtain ⟨hsep, hvar⟩ := Token.isType_iff.mp ht
    rw [resume, ofTokens.go, if_neg hsep, if_neg hvar, if_pos (List.countP_eq_zero.mpr hnone)]
  | missingType hfirst ht hlast =>
    rw [resume, List.find?_eq_none.mpr hfirst, hlast, go_separator ht]
    rfl

theorem resume_nil (h : ∀ s ∈ waiting front, ¬ s.isSeparator) : resume front [] = .ok empty := by
  rw [resume, List.find?_eq_none.mpr h]
  rfl

/--
Behind a `-` that waits nothing but a type fits.
-/
theorem not_isSeparator_of_not_offends (h : ∀ reason, ¬ Offends front t rest reason)
    (htype : ¬ t.isType) : ∀ s ∈ waiting front, ¬ s.isSeparator := by
  intro s hs hsep
  have hkind := (or_assoc.mpr t.kinds).resolve_right htype
  exact h _ (.expectedType ⟨s, hs, hsep⟩ hkind)

/--
A token that fits is read, and adds to what is read behind it.
-/
theorem resume_cons (h : ∀ reason, ¬ Offends front t rest reason) :
    ∃ f, resume front (t :: rest) = (resume (front ++ [t]) rest).map f := by
  have hnone : ¬ t.isType → (waiting front).find? Token.isSeparator = none :=
    fun htype => List.find?_eq_none.mpr (not_isSeparator_of_not_offends h htype)
  rcases t.kinds with hsep | hvar | htype
  . have htype := Token.not_isType_of_isSeparator hsep
    have hvar := Token.not_isVariable_of_isSeparator hsep
    refine ⟨id, ?_⟩
    rw [Except.map_id, resume, resume, waiting_of_not_isType htype, hnone htype,
      go_separator hsep, List.countP_append, List.find?_append, hnone htype]
    simp [hsep, hvar]
  . have htype := Token.not_isType_of_isVariable hvar
    have hsep := Token.not_isSeparator_of_isVariable hvar
    refine ⟨consValue t.symbol, ?_⟩
    rw [resume, resume, waiting_of_not_isType htype, hnone htype,
      go_variable hvar, List.countP_append, List.find?_append, hnone htype]
    simp [hsep, hvar]
  . have hcount : (waiting front).countP Token.isVariable ≠ 0 := by
      intro hzero
      exact h _ (.orphanType (List.countP_eq_zero.mp hzero) htype)
    refine ⟨consTypes ((waiting front).countP Token.isVariable) t.symbol, ?_⟩
    rw [resume, resume, waiting_type htype, go_type htype hcount]
    rfl

theorem resume_append (h : ∀ as t bs reason, mid = as ++ t :: bs →
    ¬ Offends (front ++ as) t (bs ++ rest) reason) :
    ∃ f, resume front (mid ++ rest) = (resume (front ++ mid) rest).map f := by
  induction mid generalizing front with
  | nil => exact ⟨id, by simp⟩
  | cons t mid ih =>
    have ht : ∀ reason, ¬ Offends front t (mid ++ rest) reason := by
      intro reason
      simpa using h [] t mid reason rfl
    have hbehind : ∀ as t' bs reason, mid = as ++ t' :: bs →
        ¬ Offends (front ++ [t] ++ as) t' (bs ++ rest) reason := by
      intro as t' bs reason hmid
      simpa using h (t :: as) t' bs reason (by rw [hmid]; rfl)
    obtain ⟨f, hf⟩ := resume_cons ht
    obtain ⟨g, hg⟩ := ih hbehind
    rw [List.append_assoc, List.singleton_append] at hg
    exact ⟨f ∘ g, by rw [List.cons_append, hf, hg, Outcome.map_map]⟩

theorem not_isSeparator_of_mem_waiting
    (h : ∀ front t rest reason, tokens = front ++ t :: rest → ¬ Offends front t rest reason) :
    ∀ s ∈ waiting tokens, ¬ s.isSeparator := by
  rcases List.eq_nil_or_concat tokens with rfl | ⟨front, t, rfl⟩
  . simp [waiting]
  . have ht := fun reason => h front t [] reason (by simp)
    by_cases htype : t.isType
    . simp [waiting_type htype]
    . have hfront := not_isSeparator_of_not_offends ht htype
      intro s hs
      rw [List.concat_eq_append, waiting_of_not_isType htype] at hs
      cases List.mem_append.mp hs with
      | inl hs => exact hfront s hs
      | inr hs =>
        intro hsep
        rw [List.mem_singleton.mp hs] at hsep
        exact ht _ (.missingType hfront hsep rfl)

theorem exists_ok_of_forall_not_offends
    (h : ∀ front t rest reason, tokens = front ++ t :: rest → ¬ Offends front t rest reason) :
    ∃ p, ofTokens tokens = .ok p := by
  have hfits : ∀ as t bs reason, tokens = as ++ t :: bs →
      ¬ Offends ([] ++ as) t (bs ++ []) reason := by
    intro as t bs reason htokens
    simpa using h as t bs reason htokens
  obtain ⟨f, hf⟩ := resume_append hfits
  rw [List.append_nil, List.nil_append, resume_nil (not_isSeparator_of_mem_waiting h)] at hf
  exact ⟨_, hf⟩

theorem ofTokens_of_leftmost (h : IsLeftmostOffence tokens front t rest reason) :
    ofTokens tokens = .error (.malformed reason t.span) := by
  obtain ⟨rfl, hoffends, hleast⟩ := h
  have hfits : ∀ as t' bs reason', front = as ++ t' :: bs →
      ¬ Offends ([] ++ as) t' (bs ++ t :: rest) reason' := by
    rintro as t' bs reason' rfl hoffends'
    have := hleast as t' (bs ++ t :: rest) reason' (by simp) hoffends'
    rw [List.length_append, List.length_cons] at this
    omega
  obtain ⟨f, hf⟩ := resume_append hfits
  rw [List.nil_append, resume_of_offends hoffends] at hf
  exact hf

theorem exists_leftmost (h : ∃ front t rest reason, tokens = front ++ t :: rest
    ∧ Offends front t rest reason) :
    ∃ front t rest reason, IsLeftmostOffence tokens front t rest reason := by
  classical
  have hlength : ∃ n front t rest reason, tokens = front ++ t :: rest
      ∧ Offends front t rest reason ∧ front.length = n := by
    obtain ⟨front, t, rest, reason, htokens, hoffends⟩ := h
    exact ⟨_, front, t, rest, reason, htokens, hoffends, rfl⟩
  obtain ⟨front, t, rest, reason, htokens, hoffends, hfind⟩ := Nat.find_spec hlength
  refine ⟨front, t, rest, reason, htokens, hoffends, ?_⟩
  intro front' t' rest' reason' htokens' hoffends'
  rw [hfind]
  exact Nat.find_min' hlength ⟨front', t', rest', reason', htokens', hoffends', rfl⟩

theorem ofTokens_eq_error_iff {e : ReadError} :
    ofTokens tokens = .error e ↔
      ∃ front t rest reason, IsLeftmostOffence tokens front t rest reason
        ∧ e = .malformed reason t.span := by
  constructor
  . intro h
    by_cases hclean : ∀ front t rest reason, tokens = front ++ t :: rest →
        ¬ Offends front t rest reason
    . obtain ⟨p, hp⟩ := exists_ok_of_forall_not_offends hclean
      rw [hp] at h
      cases h
    . push Not at hclean
      obtain ⟨front, t, rest, reason, hleftmost⟩ := exists_leftmost hclean
      rw [ofTokens_of_leftmost hleftmost, Except.error.injEq] at h
      exact ⟨front, t, rest, reason, hleftmost, h.symm⟩
  . rintro ⟨front, t, rest, reason, hleftmost, rfl⟩
    exact ofTokens_of_leftmost hleftmost

end Parameters

/--
Parameters are read from lists of the grammar alone. Every variable has the next type behind it, and
what is refused is refused because of the leftmost token that does not fit.
-/
theorem parameters_follow_grammar (tokens : List Token) :
    ((∃ p, Parameters.ofTokens tokens = .ok p) ↔ ∃ l : ParameterList, l.tokens = tokens)
    ∧ (∀ p, Parameters.ofTokens tokens = .ok p →
        p.values = (tokens.filter Token.isVariable).map Token.symbol
        ∧ (∀ front v rest, tokens = front ++ v :: rest → v.isVariable →
            p.typeOf? (front.countP Token.isVariable)
              = (rest.find? Token.isType).map Token.symbol
            ∧ (p.typeOf? (front.countP Token.isVariable) = none ↔ ∀ t ∈ rest, ¬ t.isType))
        ∧ p.types.length ≤ p.values.length
        ∧ ∀ i j, i ≤ j → p.typeOf? i = none → p.typeOf? j = none)
    ∧ ∀ e, Parameters.ofTokens tokens = .error e ↔
        ∃ front t rest reason, Parameters.IsLeftmostOffence tokens front t rest reason
          ∧ e = .malformed reason t.span := by
  refine ⟨⟨?_, ?_⟩, ?_, fun e => Parameters.ofTokens_eq_error_iff⟩
  . rintro ⟨p, h⟩
    obtain ⟨l, hl, _⟩ := Parameters.ofTokens_eq_ok_iff.mp h
    exact ⟨l, hl⟩
  . rintro ⟨l, hl⟩
    exact ⟨l.parameters, Parameters.ofTokens_eq_ok_iff.mpr ⟨l, hl, rfl⟩⟩
  . intro p h
    obtain ⟨l, rfl, rfl⟩ := Parameters.ofTokens_eq_ok_iff.mp h
    refine ⟨l.values_parameters, ?_, l.length_types_le, ?_⟩
    . intro front v rest htokens hv
      have htype := ParameterList.typeOf?_parameters htokens hv
      refine ⟨htype, ?_⟩
      rw [htype, Option.map_eq_none_iff, List.find?_eq_none]
    . intro i j hij hi
      rw [Parameters.typeOf?, List.getElem?_eq_none_iff] at hi ⊢
      exact Nat.le_trans hi hij

/--
A type without a `-`, a variable without a type, and a list with two tokens that do not fit.
-/
theorem parameters_follow_grammar_mixed :
    let tokens := ["?x", "?y", "-", "t", "?z", "car", "?u"].map Token.ofString
    let refused : List Token := [⟨"?x", some ⟨1, 3⟩⟩, ⟨"-", some ⟨4, 5⟩⟩, ⟨"?y", some ⟨6, 8⟩⟩,
      ⟨"-", some ⟨9, 10⟩⟩]
    let p : Parameters := ⟨["?x", "?y", "?z", "?u"], ["t", "t", "car"]⟩
    Parameters.ofTokens tokens = .ok p
      ∧ (∃ l : ParameterList, l.tokens = tokens)
      ∧ p.typeOf? 2 = some "car"
      ∧ (p.typeOf? 3 = none ↔ ∀ t ∈ ([] : List Token), ¬ t.isType)
      ∧ Parameters.ofTokens refused = .error (.malformed .expectedType (some ⟨6, 8⟩))
      ∧ ∃ front t rest reason, Parameters.IsLeftmostOffence refused front t rest reason
        ∧ t.span = some ⟨6, 8⟩ := by
  intro tokens refused p
  have hok : Parameters.ofTokens tokens = .ok p := by
    decide +kernel
  have herror : Parameters.ofTokens refused = .error (.malformed .expectedType (some ⟨6, 8⟩)) := by
    decide +kernel
  obtain ⟨hgrammar, hpairs, _⟩ := parameters_follow_grammar tokens
  obtain ⟨_, _, hleftmost⟩ := parameters_follow_grammar refused
  have htypes := (hpairs p hok).2.1
  refine ⟨hok, hgrammar.mp ⟨p, hok⟩, ?_, ?_, herror, ?_⟩
  . exact (htypes (tokens.take 4) (.ofString "?z") (tokens.drop 5) rfl (by decide)).1
  . exact (htypes (tokens.take 6) (.ofString "?u") [] rfl (by decide)).2
  . obtain ⟨front, t, rest, reason, hoffence, he⟩ := (hleftmost _).mp herror
    rw [ReadError.malformed.injEq] at he
    exact ⟨front, t, rest, reason, hoffence, he.2.symm⟩

end PddlOutline
