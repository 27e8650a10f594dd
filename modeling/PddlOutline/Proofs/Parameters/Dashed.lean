import PddlOutline.Proofs.Parameters.Grammar
import PddlOutline.Proofs.TypedList.Splitting

/-!
This module contains the lists that are parameters as well as a typed list. In these every type has
a `-` before it, and both readers pair the same names with the same types.
-/

namespace PddlOutline

/--
Whether every type in a list has a `-` directly before it.
-/
def Token.AreDashed (ts : List Token) : Prop :=
  ∀ front t rest, ts = front ++ t :: rest → t.isType → ∃ s ∈ front.getLast?, s.isSeparator

namespace TypedGroup

/--
The type of a group, once for every name.
-/
def types (g : TypedGroup) : List String :=
  match g.type with
  | some type => List.replicate g.names.length type.symbol
  | none => []

/--
The group of the names at the end of a list, if there are any.
-/
def trailing (names : List Token) : List TypedGroup :=
  if names = [] then [] else [⟨names, none⟩]

variable {vs : List Token}

theorem flatMap_trailing {α : Type} {f : TypedGroup → List α} (h : f ⟨[], none⟩ = [])
    (names : List Token) : (trailing names).flatMap f = f ⟨names, none⟩ := by
  unfold trailing
  split
  next hempty => rw [hempty, h, List.flatMap_nil]
  next => rw [List.flatMap_singleton]

theorem ofTokens_trailing (h : ∀ v ∈ vs, ¬ v.isSeparator) : ofTokens vs = .ok (trailing vs) := by
  unfold trailing
  split
  next hempty =>
    rw [hempty]
    rfl
  next hne => exact ofTokens_untyped h hne

end TypedGroup

namespace ParameterBlock

variable {b : ParameterBlock} {front rest : List Token} {t : Token}

def IsDashed (b : ParameterBlock) : Prop :=
  b.separator.isSome

def group (b : ParameterBlock) : TypedGroup :=
  ⟨b.vars, some b.type⟩

theorem IsDashed.exists_tokens (h : b.IsDashed) :
    ∃ s, s.isSeparator ∧ b.tokens = b.vars ++ [s, b.type] := by
  obtain ⟨s, hs⟩ := Option.isSome_iff_exists.mp h
  refine ⟨s, b.isSeparator_of_mem s hs, ?_⟩
  rw [tokens, hs]
  rfl

theorem not_isType_of_mem (h : t ∈ b.vars ++ b.separator.toList) : ¬ t.isType := by
  cases List.mem_append.mp h with
  | inl h => exact Token.not_isType_of_isVariable (b.isVariable_of_mem t h)
  | inr h =>
    rw [Option.mem_toList] at h
    exact Token.not_isType_of_isSeparator (b.isSeparator_of_mem t h)

/--
The only type of a block stands at its end.
-/
theorem eq_of_isType (h : b.tokens = front ++ t :: rest) (ht : t.isType) :
    front = b.vars ++ b.separator.toList := by
  rw [tokens, ← List.append_assoc] at h
  rcases Text.append_cons_cases h with ⟨part, hfront, _⟩ | ⟨part, hfront, hpart⟩
  . have hmem : t ∈ b.vars ++ b.separator.toList := by simp [hfront]
    exact absurd ht (not_isType_of_mem hmem)
  . have hlength := congrArg List.length hpart
    rw [List.length_singleton, List.length_append, List.length_cons] at hlength
    have hempty : part = [] := List.length_eq_zero_iff.mp (by omega)
    rw [hfront, hempty, List.append_nil]

theorem isDashed_iff :
    b.IsDashed ↔ ∃ s ∈ (b.vars ++ b.separator.toList).getLast?, s.isSeparator := by
  unfold IsDashed
  cases hseparator : b.separator with
  | some s => simpa using b.isSeparator_of_mem s hseparator
  | none =>
    have hvar : ∀ s ∈ b.vars.getLast?, ¬ s.isSeparator := fun s hs =>
      Token.not_isSeparator_of_isVariable (b.isVariable_of_mem s (List.mem_of_getLast? hs))
    simpa using hvar

end ParameterBlock

namespace ParameterList

variable {l : ParameterList} {tokens : List Token}

def IsDashed (l : ParameterList) : Prop :=
  ∀ b ∈ l.blocks, b.IsDashed

/-! Both readers read the same of a list that is dashed. -/

/--
The groups that a list is split into if it is dashed.
-/
def groups (l : ParameterList) : List TypedGroup :=
  l.blocks.map ParameterBlock.group ++ TypedGroup.trailing l.untyped

theorem ofTokens_groups (h : l.IsDashed) : TypedGroup.ofTokens l.tokens = .ok l.groups := by
  obtain ⟨blocks, untyped, huntyped⟩ := l
  induction blocks with
  | nil =>
    apply TypedGroup.ofTokens_trailing
    intro v hv
    exact Token.not_isSeparator_of_isVariable (huntyped v hv)
  | cons b blocks ih =>
    rw [IsDashed, List.forall_mem_cons] at h
    obtain ⟨s, hs, htokens⟩ := h.1.exists_tokens
    have hvars : ∀ v ∈ b.vars, ¬ v.isSeparator :=
      fun v hv => Token.not_isSeparator_of_isVariable (b.isVariable_of_mem v hv)
    have htype := (Token.isType_iff.mp b.isType_type).1
    rw [tokens, List.flatMap_cons, htokens, List.append_assoc, List.append_assoc]
    apply (TypedGroup.ofTokens_typed hvars hs htype).trans
    exact congrArg (Except.map (b.group :: ·)) (ih h.2)

theorem flatMap_groups {α : Type} {f : TypedGroup → List α} (h : f ⟨[], none⟩ = [])
    (l : ParameterList) :
    l.groups.flatMap f = (l.blocks.flatMap fun b => f b.group) ++ f ⟨l.untyped, none⟩ := by
  rw [groups, List.flatMap_append, List.flatMap_map, TypedGroup.flatMap_trailing h]

theorem values_parameters_groups (l : ParameterList) :
    l.parameters.values = (l.groups.flatMap TypedGroup.names).map Token.symbol := by
  rw [flatMap_groups rfl]
  rfl

theorem types_parameters_groups (l : ParameterList) :
    l.parameters.types = l.groups.flatMap TypedGroup.types := by
  rw [flatMap_groups rfl]
  exact (List.append_nil _).symm

/-! Which lists are dashed. -/

theorem IsDashed.areDashed (h : l.IsDashed) : Token.AreDashed l.tokens := by
  obtain ⟨blocks, untyped, huntyped⟩ := l
  induction blocks with
  | nil =>
    intro front t rest htokens ht
    have hmem : t ∈ untyped := by
      have huntyped : untyped = front ++ t :: rest := htokens
      simp [huntyped]
    exact absurd ht (Token.not_isType_of_isVariable (huntyped t hmem))
  | cons b blocks ih =>
    rw [IsDashed, List.forall_mem_cons] at h
    intro front t rest htokens ht
    rw [ParameterList.tokens, List.flatMap_cons, List.append_assoc] at htokens
    rcases Text.append_cons_cases htokens with ⟨part, hblock, _⟩ | ⟨part, rfl, hpart⟩
    . rw [ParameterBlock.eq_of_isType hblock ht]
      exact ParameterBlock.isDashed_iff.mp h.1
    . obtain ⟨s, hs, hsep⟩ := ih h.2 part t rest hpart ht
      refine ⟨s, ?_, hsep⟩
      rw [Option.mem_def] at hs ⊢
      rw [List.getLast?_append, hs]
      rfl

theorem isDashed_of_areDashed (h : Token.AreDashed l.tokens) : l.IsDashed := by
  intro b hb
  obtain ⟨before, after, hblocks⟩ := List.append_of_mem hb
  rw [ParameterBlock.isDashed_iff]
  have htokens : l.tokens = before.flatMap ParameterBlock.tokens
      ++ (b.vars ++ b.separator.toList)
      ++ b.type :: (after.flatMap ParameterBlock.tokens ++ l.untyped) := by
    simp [ParameterList.tokens, hblocks, ParameterBlock.tokens]
  obtain ⟨s, hs, hsep⟩ := h _ _ _ htokens b.isType_type
  refine ⟨s, ?_, hsep⟩
  have hne : b.vars ++ b.separator.toList ≠ [] := by simp [b.vars_ne_nil]
  rw [Option.mem_def, List.getLast?_append_of_ne_nil _ hne] at hs
  exact hs

end ParameterList

/--
A list of blocks that are dashed, with variables behind them, is read in both ways. The values are
the names of its groups, and each value of a group has the type of the group. No other list is read
as parameters if all its types have a `-` before them.
-/
theorem parameters_agree_with_groups :
    (∀ l : ParameterList, l.IsDashed → ∃ groups p, TypedGroup.ofTokens l.tokens = .ok groups
      ∧ Parameters.ofTokens l.tokens = .ok p
      ∧ p.values = (groups.flatMap TypedGroup.names).map Token.symbol
      ∧ p.types = groups.flatMap TypedGroup.types)
    ∧ ∀ tokens, ((∃ p, Parameters.ofTokens tokens = .ok p) ∧ Token.AreDashed tokens)
      ↔ ∃ l : ParameterList, l.IsDashed ∧ l.tokens = tokens := by
  constructor
  . intro l h
    exact ⟨l.groups, l.parameters, ParameterList.ofTokens_groups h, Parameters.ofTokens_tokens l,
      l.values_parameters_groups, l.types_parameters_groups⟩
  . intro tokens
    constructor
    . rintro ⟨⟨p, hp⟩, hdashed⟩
      obtain ⟨l, rfl, _⟩ := Parameters.ofTokens_eq_ok_iff.mp hp
      exact ⟨l, ParameterList.isDashed_of_areDashed hdashed, rfl⟩
    . rintro ⟨l, hdashed, rfl⟩
      exact ⟨⟨l.parameters, Parameters.ofTokens_tokens l⟩, hdashed.areDashed⟩

/--
Two variables with a type, one with another type and one without any.
-/
theorem parameters_agree_with_groups_trailing :
    let tokens := ["?x", "?y", "-", "t", "?z", "-", "u", "?v"].map Token.ofString
    (∃ l : ParameterList, l.IsDashed ∧ l.tokens = tokens)
      ∧ (∃ groups p, TypedGroup.ofTokens tokens = .ok groups ∧ Parameters.ofTokens tokens = .ok p
        ∧ p.values = (groups.flatMap TypedGroup.names).map Token.symbol
        ∧ p.types = groups.flatMap TypedGroup.types)
      ∧ Parameters.ofTokens tokens = .ok ⟨["?x", "?y", "?z", "?v"], ["t", "t", "u"]⟩
      ∧ Token.AreDashed tokens := by
  intro tokens
  let block : ParameterBlock := ⟨[.ofString "?x", .ofString "?y"], some (.ofString "-"),
    .ofString "t", by decide, by decide, by decide, by decide⟩
  let block' : ParameterBlock := ⟨[.ofString "?z"], some (.ofString "-"), .ofString "u",
    by decide, by decide, by decide, by decide⟩
  let l : ParameterList := ⟨[block, block'], [.ofString "?v"], by decide⟩
  have hdashed : l.IsDashed := by
    rintro b hb
    rcases List.mem_pair.mp hb with rfl | rfl
    . rfl
    . rfl
  have htokens : l.tokens = tokens := rfl
  obtain ⟨hagree, hlists⟩ := parameters_agree_with_groups
  have hread := hagree l hdashed
  rw [htokens] at hread
  have hlist := (hlists tokens).mpr ⟨l, hdashed, htokens⟩
  exact ⟨⟨l, hdashed, htokens⟩, hread, by decide +kernel, hlist.2⟩

end PddlOutline
