import PddlOutline.Parameters
import PddlOutline.Proofs.Outcome

/-!
This module contains the grammar of parameter lists. They are made of blocks of variables with a
type, which may have a `-` before it, and of variables without a type at the end. These lists are
read and no others, and every variable gets the next type behind it.
-/

namespace PddlOutline

namespace Token

variable {t : Token}

/--
What is neither a separator nor a variable names a type.
-/
def isType (t : Token) : Bool :=
  !t.isSeparator && !t.isVariable

theorem isType_iff : t.isType ↔ ¬ t.isSeparator ∧ ¬ t.isVariable := by
  simp [isType]

theorem not_isVariable_of_isSeparator (h : t.isSeparator) : ¬ t.isVariable := by
  rw [isSeparator, beq_iff_eq] at h
  rw [isVariable, h]
  decide

theorem not_isSeparator_of_isVariable (h : t.isVariable) : ¬ t.isSeparator :=
  fun hsep => not_isVariable_of_isSeparator hsep h

theorem not_isType_of_isVariable (h : t.isVariable) : ¬ t.isType :=
  fun htype => (isType_iff.mp htype).2 h

theorem not_isType_of_isSeparator (h : t.isSeparator) : ¬ t.isType :=
  fun htype => (isType_iff.mp htype).1 h

theorem kinds (t : Token) : t.isSeparator ∨ t.isVariable ∨ t.isType := by
  by_cases hsep : t.isSeparator
  . exact .inl hsep
  . by_cases hvar : t.isVariable
    . exact .inr (.inl hvar)
    . exact .inr (.inr (isType_iff.mpr ⟨hsep, hvar⟩))

end Token

/--
Variables and the type that they share.
-/
structure ParameterBlock where
  vars : List Token
  separator : Option Token
  type : Token
  vars_ne_nil : vars ≠ []
  isVariable_of_mem : ∀ v ∈ vars, v.isVariable
  isSeparator_of_mem : ∀ s ∈ separator, s.isSeparator
  isType_type : type.isType

namespace ParameterBlock

def tokens (b : ParameterBlock) : List Token :=
  b.vars ++ (b.separator.toList ++ [b.type])

/--
The type, once for every variable.
-/
def types (b : ParameterBlock) : List String :=
  List.replicate b.vars.length b.type.symbol

end ParameterBlock

structure ParameterList where
  blocks : List ParameterBlock
  untyped : List Token
  isVariable_of_mem : ∀ v ∈ untyped, v.isVariable

namespace ParameterList

def tokens (l : ParameterList) : List Token :=
  l.blocks.flatMap ParameterBlock.tokens ++ l.untyped

def parameters (l : ParameterList) : Parameters where
  values := (l.blocks.flatMap ParameterBlock.vars ++ l.untyped).map Token.symbol
  types := l.blocks.flatMap ParameterBlock.types

end ParameterList

/-! What one token does to a reader, if it is in its place. -/

namespace Parameters

variable {untyped : Nat} {separator : Option Token} {t : Token} {tokens vs : List Token}
  {p : Parameters}

theorem go_separator (h : t.isSeparator) :
    ofTokens.go untyped none (t :: tokens) = ofTokens.go untyped (some t) tokens := by
  rw [ofTokens.go, if_pos h, if_neg (by simp)]

theorem go_variable (h : t.isVariable) :
    ofTokens.go untyped none (t :: tokens)
      =
    (ofTokens.go (untyped + 1) none tokens).map (consValue t.symbol) := by
  rw [ofTokens.go, if_neg (Token.not_isSeparator_of_isVariable h), if_pos h, if_neg (by simp)]

theorem go_type (h : t.isType) (huntyped : untyped ≠ 0) :
    ofTokens.go untyped separator (t :: tokens)
      =
    (ofTokens.go 0 none tokens).map (consTypes untyped t.symbol) := by
  obtain ⟨hsep, hvar⟩ := Token.isType_iff.mp h
  rw [ofTokens.go, if_neg hsep, if_neg hvar, if_neg huntyped]

theorem go_variables (h : ∀ v ∈ vs, v.isVariable) :
    ofTokens.go untyped none (vs ++ tokens)
      =
    (ofTokens.go (untyped + vs.length) none tokens).map
      fun p => ⟨vs.map Token.symbol ++ p.values, p.types⟩ := by
  induction vs generalizing untyped with
  | nil => exact (congrFun Except.map_id _).symm
  | cons v vs ih =>
    rw [List.forall_mem_cons] at h
    rw [List.cons_append, go_variable h.1, ih h.2, Outcome.map_map, List.length_cons,
      Nat.add_assoc, Nat.add_comm 1]
    rfl

theorem go_block (b : ParameterBlock) :
    ofTokens.go 0 none (b.tokens ++ tokens)
      =
    (ofTokens.go 0 none tokens).map
      fun p => ⟨b.vars.map Token.symbol ++ p.values, b.types ++ p.types⟩ := by
  have hlength : 0 + b.vars.length ≠ 0 := by
    rw [Nat.zero_add]
    exact mt List.length_eq_zero_iff.mp b.vars_ne_nil
  have htype : ofTokens.go (0 + b.vars.length) none
      (b.separator.toList ++ (b.type :: tokens))
        = (ofTokens.go 0 none tokens).map
          (consTypes (0 + b.vars.length) b.type.symbol) := by
    cases hseparator : b.separator with
    | none => exact go_type b.isType_type hlength
    | some s =>
      rw [Option.toList_some, List.singleton_append,
        go_separator (b.isSeparator_of_mem s hseparator), go_type b.isType_type hlength]
  rw [ParameterBlock.tokens, List.append_assoc, List.append_assoc, List.singleton_append,
    go_variables b.isVariable_of_mem, htype, Outcome.map_map, Nat.zero_add]
  rfl

theorem ofTokens_tokens (l : ParameterList) : ofTokens l.tokens = .ok l.parameters := by
  obtain ⟨blocks, untyped, huntyped⟩ := l
  rw [ofTokens]
  induction blocks with
  | nil =>
    have hread : ofTokens.go 0 none (untyped ++ []) = _ := go_variables huntyped
    rw [List.append_nil] at hread
    rw [ParameterList.tokens, List.flatMap_nil, List.nil_append, hread]
    simp [ofTokens.go, empty, Except.map, ParameterList.parameters]
  | cons b blocks ih =>
    rw [ParameterList.tokens, List.flatMap_cons, List.append_assoc, go_block]
    rw [ParameterList.tokens] at ih
    rw [ih]
    simp [Except.map, ParameterList.parameters]

/--
Whatever is read continues the block that has been started.
-/
theorem exists_tokens_of_go (h : ofTokens.go untyped separator tokens = .ok p)
    (hlength : vs.length = untyped) (hvs : ∀ v ∈ vs, v.isVariable)
    (hseparator : ∀ s ∈ separator, s.isSeparator) :
    ∃ l : ParameterList, l.tokens = vs ++ (separator.toList ++ tokens) := by
  fun_induction ofTokens.go untyped separator tokens generalizing p vs with
  | case1 => cases h
  | case2 untyped => exact ⟨⟨[], vs, hvs⟩, by simp [ParameterList.tokens]⟩
  | case3 => cases h
  | case4 untyped separator token tokens hsep hnone ih =>
    rw [Bool.not_eq_true, Option.isSome_eq_false_iff, Option.isNone_iff_eq_none] at hnone
    obtain ⟨l, hl⟩ := ih h hlength hvs (by simpa using hsep)
    exact ⟨l, by simp [hl, hnone]⟩
  | case5 => cases h
  | case6 untyped separator token tokens hsep hvar hnone ih =>
    rw [Bool.not_eq_true, Option.isSome_eq_false_iff, Option.isNone_iff_eq_none] at hnone
    obtain ⟨p, hp, _⟩ := Outcome.map_eq_ok.mp h
    have hvs' : ∀ v ∈ vs ++ [token], v.isVariable := by
      intro v hv
      cases List.mem_append.mp hv with
      | inl hv => exact hvs v hv
      | inr hv => exact List.mem_singleton.mp hv ▸ hvar
    obtain ⟨l, hl⟩ := ih hp (by simp [hlength]) hvs' (by simp)
    exact ⟨l, by simp [hl, hnone]⟩
  | case7 => cases h
  | case8 untyped separator token tokens hsep hvar huntyped ih =>
    obtain ⟨p, hp, _⟩ := Outcome.map_eq_ok.mp h
    have hempty : ∀ v ∈ ([] : List Token), v.isVariable := by simp
    obtain ⟨l, hl⟩ := ih hp rfl hempty (by simp)
    have hne : vs ≠ [] := by
      rintro rfl
      exact huntyped hlength.symm
    let b : ParameterBlock :=
      ⟨vs, separator, token, hne, hvs, hseparator, Token.isType_iff.mpr ⟨hsep, hvar⟩⟩
    refine ⟨⟨b :: l.blocks, l.untyped, l.isVariable_of_mem⟩, ?_⟩
    simpa [b, ParameterList.tokens, ParameterBlock.tokens] using hl

theorem ofTokens_eq_ok_iff :
    ofTokens tokens = .ok p ↔ ∃ l : ParameterList, l.tokens = tokens ∧ l.parameters = p := by
  constructor
  . intro h
    have hempty : ∀ v ∈ ([] : List Token), v.isVariable := by simp
    obtain ⟨l, hl⟩ := exists_tokens_of_go h rfl hempty (by simp)
    have htokens : l.tokens = tokens := hl
    have hread := ofTokens_tokens l
    rw [htokens, h, Except.ok.injEq] at hread
    exact ⟨l, htokens, hread.symm⟩
  . rintro ⟨l, rfl, rfl⟩
    exact ofTokens_tokens l

end Parameters

/-! Which type belongs to which variable. -/

namespace ParameterBlock

variable {b : ParameterBlock}

theorem not_isVariable_of_mem {t : Token} (h : t ∈ b.separator.toList ++ [b.type]) :
    ¬ t.isVariable := by
  cases List.mem_append.mp h with
  | inl h =>
    rw [Option.mem_toList] at h
    exact Token.not_isVariable_of_isSeparator (b.isSeparator_of_mem t h)
  | inr h => exact List.mem_singleton.mp h ▸ (Token.isType_iff.mp b.isType_type).2

theorem filter_isVariable_tokens (b : ParameterBlock) :
    b.tokens.filter Token.isVariable = b.vars := by
  rw [tokens, List.filter_append, List.filter_eq_self.mpr b.isVariable_of_mem,
    List.filter_eq_nil_iff.mpr fun _ => b.not_isVariable_of_mem, List.append_nil]

theorem countP_isVariable_tokens (b : ParameterBlock) :
    b.tokens.countP Token.isVariable = b.vars.length := by
  rw [List.countP_eq_length_filter, filter_isVariable_tokens]

/--
What is behind a variable of a block: other variables, the separator and the type.
-/
theorem exists_of_isVariable {front rest : List Token} {v : Token}
    (h : b.tokens = front ++ v :: rest) (hv : v.isVariable) :
    ∃ vs, b.vars = front ++ v :: vs ∧ rest = vs ++ (b.separator.toList ++ [b.type]) := by
  rcases Text.append_cons_cases h with hvars | ⟨part, _, hpart⟩
  . exact hvars
  . have hmem : v ∈ b.separator.toList ++ [b.type] := by simp [hpart]
    exact absurd hv (b.not_isVariable_of_mem hmem)

theorem find?_isType {vs : List Token} (h : ∀ v ∈ vs, v.isVariable) (rest : List Token) :
    (vs ++ (b.separator.toList ++ [b.type]) ++ rest).find? Token.isType = some b.type := by
  rw [List.find?_eq_some_iff_append]
  refine ⟨b.isType_type, vs ++ b.separator.toList, rest, by simp, ?_⟩
  intro t ht
  rw [Bool.not_eq_true', ← Bool.not_eq_true]
  cases List.mem_append.mp ht with
  | inl ht => exact Token.not_isType_of_isVariable (h t ht)
  | inr ht =>
    rw [Option.mem_toList] at ht
    exact Token.not_isType_of_isSeparator (b.isSeparator_of_mem t ht)

end ParameterBlock

namespace ParameterList

theorem values_parameters (l : ParameterList) :
    l.parameters.values = (l.tokens.filter Token.isVariable).map Token.symbol := by
  have huntyped : l.untyped.filter Token.isVariable = l.untyped :=
    List.filter_eq_self.mpr l.isVariable_of_mem
  rw [parameters, tokens, List.filter_append, huntyped, List.filter_flatMap]
  simp only [ParameterBlock.filter_isVariable_tokens]

theorem length_types_le (l : ParameterList) :
    l.parameters.types.length ≤ l.parameters.values.length := by
  simp only [parameters, ParameterBlock.types, List.length_map, List.length_append,
    List.length_flatMap, List.length_replicate]
  exact Nat.le_add_right _ _

/--
A variable has the next type behind it.
-/
theorem typeOf?_parameters {l : ParameterList} {front rest : List Token} {v : Token}
    (h : l.tokens = front ++ v :: rest) (hv : v.isVariable) :
    l.parameters.typeOf? (front.countP Token.isVariable)
      =
    (rest.find? Token.isType).map Token.symbol := by
  obtain ⟨blocks, untyped, huntyped⟩ := l
  induction blocks generalizing front with
  | nil =>
    have hrest : rest.find? Token.isType = none := by
      rw [List.find?_eq_none]
      intro t ht
      have hmem : t ∈ untyped := by
        have huntyped : untyped = front ++ v :: rest := h
        simp [huntyped, ht]
      exact Token.not_isType_of_isVariable (huntyped t hmem)
    rw [hrest]
    rfl
  | cons b blocks ih =>
    have htypes : (mk (b :: blocks) untyped huntyped).parameters.types
        = b.types ++ (mk blocks untyped huntyped).parameters.types := List.flatMap_cons
    have htokens : b.tokens ++ (mk blocks untyped huntyped).tokens = front ++ v :: rest := by
      rw [← h, tokens, tokens, List.flatMap_cons, List.append_assoc]
    rcases Text.append_cons_cases htokens with ⟨part, hfront, rfl⟩ | ⟨part, rfl, hrest⟩
    . obtain ⟨vs, hvars, rfl⟩ := b.exists_of_isVariable hfront hv
      have hmem := b.isVariable_of_mem
      rw [hvars, List.forall_mem_append, List.forall_mem_cons] at hmem
      have hcount : front.countP Token.isVariable = front.length :=
        List.countP_eq_length.mpr hmem.1
      have hlt : front.length < b.vars.length := by simp [hvars]
      have htype : b.types[front.length]? = some b.type.symbol := by
        rw [ParameterBlock.types, List.getElem?_replicate_of_lt hlt]
      have hinside : front.length < b.types.length := by simpa [ParameterBlock.types]
      rw [Parameters.typeOf?, htypes, hcount, List.getElem?_append_left hinside, htype,
        b.find?_isType hmem.2.2]
      rfl
    . have hlength : b.types.length = b.tokens.countP Token.isVariable := by
        rw [ParameterBlock.types, List.length_replicate, b.countP_isVariable_tokens]
      rw [Parameters.typeOf?, htypes, List.countP_append, ← hlength,
        List.getElem?_append_right (Nat.le_add_right _ _), Nat.add_sub_cancel_left]
      exact ih hrest

end ParameterList
end PddlOutline
