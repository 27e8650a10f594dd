import PddlOutline.Parameters
import PddlOutline.Proofs.Outcome
import PddlOutline.Proofs.Text.Runs
import PddlOutline.TypedList

/-!
This module contains what the readers of token lists have in common. They do not look at tokens
beyond the kinds these are of, so what they answer does not depend on where the tokens stand, and
when they fail they blame one of the tokens.
-/

namespace PddlOutline

def ReadError.unlocated : ReadError → ReadError
  | .missingSection keyword _ => .missingSection keyword none
  | .malformed reason _ => .malformed reason none
  | .outOfRange span => .outOfRange span

def Token.unlocated (t : Token) : Token :=
  ofString t.symbol

def Token.ofChars (cs : List Char) : Token :=
  ofString (String.ofList cs)

theorem Fragment.map_unlocated_tokens (f : Fragment) :
    f.tokens.map Token.unlocated = (Text.words f.chars).map Token.ofChars := by
  rw [tokens, List.map_map, ← runs_map_chars f.start, List.map_map]
  rfl

theorem Fragment.map_symbol_tokens (f : Fragment) :
    f.tokens.map Token.symbol = (Text.words f.chars).map String.ofList := by
  have hsymbols := congrArg (List.map Token.symbol) f.map_unlocated_tokens
  rw [List.map_map, List.map_map] at hsymbols
  exact hsymbols

theorem Fragment.isWord_of_mem_tokens {f : Fragment} {t : Token} (h : t ∈ f.tokens) :
    Text.IsWord t.symbol.toList := by
  have hsymbol := List.mem_map_of_mem (f := Token.symbol) h
  rw [map_symbol_tokens] at hsymbol
  obtain ⟨word, hword, hsymbol⟩ := List.mem_map.mp hsymbol
  rw [← hsymbol, String.toList_ofList]
  exact Text.isWord_of_mem_words hword

/--
Whether a reason for failure is about a token of this kind.
-/
def Reason.Blames : Reason → Token → Prop
  | .missingType, t => t.isSeparator
  | .expectedType, t => t.isSeparator ∨ t.isVariable
  | .orphanType, t => ¬ t.isSeparator ∧ ¬ t.isVariable
  | _, _ => False

/--
A change of tokens, and of the errors that blame them, by which separators and variables stay what
they are.
-/
structure Relabeling where
  token : Token → Token
  symbol : String → String
  error : ReadError → ReadError
  symbol_token : ∀ t, (token t).symbol = symbol t.symbol
  isSeparator_token : ∀ t, (token t).isSeparator = t.isSeparator
  isVariable_token : ∀ t, (token t).isVariable = t.isVariable
  error_malformed : ∀ reason t, error (.malformed reason t.span) = .malformed reason (token t).span

namespace Relabeling

attribute [simp] symbol_token isSeparator_token isVariable_token error_malformed

def unlocating : Relabeling where
  token := Token.unlocated
  symbol := id
  error := ReadError.unlocated
  symbol_token _ := rfl
  isSeparator_token _ := rfl
  isVariable_token _ := rfl
  error_malformed _ _ := rfl

def group (r : Relabeling) (g : TypedGroup) : TypedGroup :=
  ⟨g.names.map r.token, g.type.map r.token⟩

def parameters (r : Relabeling) (p : Parameters) : Parameters :=
  ⟨p.values.map r.symbol, p.types.map r.symbol⟩

end Relabeling

variable (r : Relabeling)

namespace TypedGroup

theorem consName_relabel (name : Token) (groups : List TypedGroup) :
    consName (r.token name) (groups.map r.group) = (consName name groups).map r.group := by
  cases groups with
  | nil => rfl
  | cons group groups => rfl

/--
A name that is added to the first group comes first in whatever groups are written as.
-/
theorem flatMap_consName {f : TypedGroup → List Token} {name : Token}
    (hcons : ∀ names type, f ⟨name :: names, type⟩ = name :: f ⟨names, type⟩)
    (hnil : f ⟨[], none⟩ = []) (groups : List TypedGroup) :
    (consName name groups).flatMap f = name :: groups.flatMap f := by
  cases groups with
  | nil => rw [consName, List.flatMap_singleton, hcons, hnil, List.flatMap_nil]
  | cons group groups =>
    rw [consName, List.flatMap_cons, List.flatMap_cons, hcons, List.cons_append]

theorem ofTokens_of_not_isSeparator {token : Token} (h : ¬ token.isSeparator)
    (tokens : List Token) :
    ofTokens (token :: tokens) = (ofTokens tokens).map (consName token) := by
  rw [ofTokens.eq_def]
  exact if_neg h

theorem ofTokens_of_isSeparator {token type : Token} (h : token.isSeparator)
    (htype : ¬ type.isSeparator) (tokens : List Token) :
    ofTokens (token :: type :: tokens) = (ofTokens tokens).map (⟨[], some type⟩ :: ·) := by
  rw [ofTokens.eq_def]
  exact (if_pos h).trans (if_neg htype)

theorem ofTokens_relabel (tokens : List Token) :
    ofTokens (tokens.map r.token)
      =
    ((ofTokens tokens).mapError r.error).map (·.map r.group) := by
  fun_induction ofTokens tokens with
  | case1 => rfl
  | case2 token hsep =>
    rw [List.map_cons, List.map_nil, ofTokens.eq_def]
    simp [hsep, Except.map]
  | case3 token hsep type tokens htype =>
    rw [List.map_cons, List.map_cons, ofTokens.eq_def]
    simp [hsep, htype, Except.map]
  | case4 token hsep type tokens htype ih =>
    have hsep' : (r.token token).isSeparator := by rwa [r.isSeparator_token]
    have htype' : ¬ (r.token type).isSeparator := by rwa [r.isSeparator_token]
    rw [List.map_cons, List.map_cons, ofTokens_of_isSeparator hsep' htype', ih,
      Outcome.mapError_map, Outcome.map_map, Outcome.map_map]
    rfl
  | case5 token tokens hsep ih =>
    have hsep' : ¬ (r.token token).isSeparator := by rwa [r.isSeparator_token]
    have hcons : consName (r.token token) ∘ (·.map r.group) = (·.map r.group) ∘ consName token :=
      funext fun groups => consName_relabel r token groups
    rw [List.map_cons, ofTokens_of_not_isSeparator hsep', ih, Outcome.mapError_map,
      Outcome.map_map, Outcome.map_map, hcons]

theorem exists_blamed {tokens : List Token} {e : ReadError} (h : ofTokens tokens = .error e) :
    ∃ reason, ∃ t ∈ tokens, e = .malformed reason t.span ∧ reason.Blames t := by
  fun_induction ofTokens tokens with
  | case1 => cases h
  | case2 token hsep =>
    cases h
    exact ⟨.missingType, token, by simp, rfl, hsep⟩
  | case3 token _ type tokens hsep =>
    cases h
    exact ⟨.expectedType, type, by simp, rfl, .inl hsep⟩
  | case4 token _ type tokens _ ih =>
    obtain ⟨reason, t, ht, he, hblames⟩ := ih (Outcome.map_eq_error.mp h)
    exact ⟨reason, t, by simp [ht], he, hblames⟩
  | case5 token tokens _ ih =>
    obtain ⟨reason, t, ht, he, hblames⟩ := ih (Outcome.map_eq_error.mp h)
    exact ⟨reason, t, by simp [ht], he, hblames⟩

end TypedGroup

namespace TypedList

/--
Whether a list is grouped, and how many names it has.
-/
def form (l : TypedList) : Bool × Nat :=
  (l.isGrouped, l.size)

theorem addGroup_unlocating (types : NameMap (List String)) (group : TypedGroup) :
    addGroup types (Relabeling.unlocating.group group) = addGroup types group := by
  obtain ⟨names, type⟩ := group
  cases type with
  | none =>
    rw [addGroup, addGroup, Relabeling.group, List.map_map]
    rfl
  | some type =>
    rw [addGroup, addGroup, Relabeling.group, List.map_map]
    rfl

theorem flatten_alterEntries_perm (key : String) (names : List String)
    (entries : List (String × List String)) :
    ((NameMap.alterEntries key (·.getD [] ++ names) entries).map Prod.snd).flatten.Perm
      ((entries.map Prod.snd).flatten ++ names) := by
  induction entries with
  | nil => simp [NameMap.alterEntries]
  | cons entry entries ih =>
    rw [NameMap.alterEntries]
    split
    . rw [List.map_cons, List.map_cons, List.flatten_cons, List.flatten_cons, Option.getD_some,
        List.append_assoc, List.append_assoc]
      exact List.Perm.append_left _ List.perm_append_comm
    . rw [List.map_cons, List.map_cons, List.flatten_cons, List.flatten_cons, List.append_assoc]
      exact List.Perm.append_left _ ih

theorem names_addGroup_perm (types : NameMap (List String)) (group : TypedGroup) :
    (grouped (addGroup types group)).names.Perm
      ((grouped types).names ++ group.names.map Token.symbol) :=
  flatten_alterEntries_perm _ _ types.entries

theorem names_foldl_addGroup_perm (groups : List TypedGroup) (types : NameMap (List String)) :
    (grouped (groups.foldl addGroup types)).names.Perm
      ((grouped types).names ++ (groups.flatMap TypedGroup.names).map Token.symbol) := by
  induction groups generalizing types with
  | nil => simp
  | cons group groups ih =>
    rw [List.foldl_cons, List.flatMap_cons, List.map_append, ← List.append_assoc]
    exact (ih (addGroup types group)).trans
      ((names_addGroup_perm types group).append_right _)

theorem size_foldl_addGroup (groups : List TypedGroup) (types : NameMap (List String)) :
    (grouped (groups.foldl addGroup types)).size
      =
    (grouped types).size + (groups.flatMap TypedGroup.names).length := by
  rw [size, (names_foldl_addGroup_perm groups types).length_eq, List.length_append, List.length_map]
  rfl

/--
A relabeling passes through a reader of typed lists, up to whatever `view` makes of the lists.
-/
theorem ofTokens_relabel {α : Type} (view : TypedList → α)
    (hflat : ∀ tokens : List Token,
      view (.flat ((tokens.map r.token).map Token.symbol)) = view (.flat (tokens.map Token.symbol)))
    (hgrouped : ∀ groups : List TypedGroup,
      view (.grouped ((groups.map r.group).foldl addGroup .empty))
        = view (.grouped (groups.foldl addGroup .empty)))
    (tokens : List Token) :
    (ofTokens (tokens.map r.token)).map view
      =
    ((ofTokens tokens).mapError r.error).map view := by
  have hany : (tokens.map r.token).any Token.isSeparator = tokens.any Token.isSeparator := by
    rw [List.any_map]
    congr
    exact funext r.isSeparator_token
  rw [ofTokens, ofTokens, hany]
  split
  . rw [TypedGroup.ofTokens_relabel, Outcome.map_map, Outcome.mapError_map, Outcome.map_map,
      Outcome.map_map]
    exact congrArg (Except.map · _) (funext hgrouped)
  . exact congrArg Except.ok (hflat tokens)

theorem ofTokens_unlocated (tokens : List Token) :
    ofTokens (tokens.map Token.unlocated) = (ofTokens tokens).mapError ReadError.unlocated := by
  have hflat : ∀ tokens : List Token, flat ((tokens.map Token.unlocated).map Token.symbol)
      = flat (tokens.map Token.symbol) := by
    intro tokens
    rw [List.map_map]
    rfl
  have hgrouped : ∀ groups : List TypedGroup,
      grouped ((groups.map Relabeling.unlocating.group).foldl addGroup .empty)
        = grouped (groups.foldl addGroup .empty) := by
    intro groups
    rw [List.foldl_map]
    congr
    funext types group
    exact addGroup_unlocating types group
  have h := ofTokens_relabel .unlocating id hflat hgrouped tokens
  rwa [Except.map_id] at h

theorem form_ofTokens_relabel (tokens : List Token) :
    (ofTokens (tokens.map r.token)).map form
      =
    ((ofTokens tokens).mapError r.error).map form := by
  apply ofTokens_relabel r form
  . intro tokens
    simp [form, isGrouped, size, names]
  . intro groups
    have hnames : (groups.map r.group).flatMap TypedGroup.names
        = (groups.flatMap TypedGroup.names).map r.token := by
      rw [List.flatMap_map, List.map_flatMap]
      rfl
    rw [form, form, size_foldl_addGroup, size_foldl_addGroup, hnames, List.length_map]
    rfl

theorem exists_blamed {tokens : List Token} {e : ReadError} (h : ofTokens tokens = .error e) :
    ∃ reason, ∃ t ∈ tokens, e = .malformed reason t.span ∧ reason.Blames t := by
  rw [ofTokens] at h
  split at h
  . exact TypedGroup.exists_blamed (Outcome.map_eq_error.mp h)
  . cases h

end TypedList

namespace Parameters

theorem ofTokens.go_relabel (tokens : List Token) (untyped : Nat) (separator : Option Token) :
    go untyped (separator.map r.token) (tokens.map r.token)
      =
    ((go untyped separator tokens).mapError r.error).map r.parameters := by
  fun_induction go untyped separator tokens with
  | case1 untyped separator => simp [go, Except.map]
  | case2 untyped => rfl
  | case3 untyped separator token tokens hsep hpending =>
    rw [List.map_cons, go, r.isSeparator_token, if_pos hsep, Option.isSome_map, if_pos hpending]
    simp [Except.map]
  | case4 untyped separator token tokens hsep hpending ih =>
    rw [List.map_cons, go, r.isSeparator_token, if_pos hsep, Option.isSome_map, if_neg hpending]
    exact ih
  | case5 untyped separator token tokens hsep hvar hpending =>
    rw [List.map_cons, go, r.isSeparator_token, if_neg hsep, r.isVariable_token, if_pos hvar,
      Option.isSome_map, if_pos hpending]
    simp [Except.map]
  | case6 untyped separator token tokens hsep hvar hpending ih =>
    have hcons : consValue (r.token token).symbol ∘ r.parameters
        = r.parameters ∘ consValue token.symbol := by
      funext p
      simp [consValue, Relabeling.parameters]
    rw [Option.map_none] at ih
    rw [List.map_cons, go, r.isSeparator_token, if_neg hsep, r.isVariable_token, if_pos hvar,
      Option.isSome_map, if_neg hpending, ih, Outcome.mapError_map, Outcome.map_map,
      Outcome.map_map, hcons]
  | case7 separator token tokens hsep hvar =>
    rw [List.map_cons, go, r.isSeparator_token, if_neg hsep, r.isVariable_token, if_neg hvar,
      if_pos rfl]
    simp [Except.map]
  | case8 untyped separator token tokens hsep hvar huntyped ih =>
    have hcons : consTypes untyped (r.token token).symbol ∘ r.parameters
        = r.parameters ∘ consTypes untyped token.symbol := by
      funext p
      simp [consTypes, Relabeling.parameters]
    rw [Option.map_none] at ih
    rw [List.map_cons, go, r.isSeparator_token, if_neg hsep, r.isVariable_token, if_neg hvar,
      if_neg huntyped, ih, Outcome.mapError_map, Outcome.map_map, Outcome.map_map, hcons]

theorem ofTokens_relabel (tokens : List Token) :
    ofTokens (tokens.map r.token)
      =
    ((ofTokens tokens).mapError r.error).map r.parameters :=
  ofTokens.go_relabel r tokens 0 none

theorem ofTokens_unlocated (tokens : List Token) :
    ofTokens (tokens.map Token.unlocated) = (ofTokens tokens).mapError ReadError.unlocated := by
  have hid : Relabeling.unlocating.parameters = id := by
    funext p
    simp [Relabeling.parameters, Relabeling.unlocating]
  have h := ofTokens_relabel .unlocating tokens
  rwa [hid, Except.map_id] at h

theorem ofTokens.exists_blamed_go {tokens : List Token} {untyped : Nat} {separator : Option Token}
    {e : ReadError} (hseparator : ∀ t ∈ separator, t.isSeparator)
    (h : go untyped separator tokens = .error e) :
    ∃ reason, ∃ t, (t ∈ separator ∨ t ∈ tokens) ∧ e = .malformed reason t.span
      ∧ reason.Blames t := by
  fun_induction go untyped separator tokens with
  | case1 untyped separator =>
    cases h
    exact ⟨.missingType, separator, .inl rfl, rfl, hseparator separator rfl⟩
  | case2 untyped => cases h
  | case3 untyped separator token tokens hsep hpending =>
    cases h
    exact ⟨.expectedType, token, by simp, rfl, .inl hsep⟩
  | case4 untyped separator token tokens hsep hpending ih =>
    obtain ⟨reason, t, ht, he, hblames⟩ := ih (by simpa using hsep) h
    refine ⟨reason, t, .inr ?_, he, hblames⟩
    cases ht with
    | inl ht => simpa using Or.inl ht.symm
    | inr ht => exact List.mem_cons_of_mem token ht
  | case5 untyped separator token tokens hsep hvar hpending =>
    cases h
    exact ⟨.expectedType, token, by simp, rfl, .inr hvar⟩
  | case6 untyped separator token tokens hsep hvar hpending ih =>
    obtain ⟨reason, t, ht, he, hblames⟩ := ih (by simp) (Outcome.map_eq_error.mp h)
    exact ⟨reason, t, .inr (List.mem_cons_of_mem token (by simpa using ht)), he, hblames⟩
  | case7 separator token tokens hsep hvar =>
    cases h
    exact ⟨.orphanType, token, by simp, rfl, hsep, hvar⟩
  | case8 untyped separator token tokens hsep hvar huntyped ih =>
    obtain ⟨reason, t, ht, he, hblames⟩ := ih (by simp) (Outcome.map_eq_error.mp h)
    exact ⟨reason, t, .inr (List.mem_cons_of_mem token (by simpa using ht)), he, hblames⟩

theorem exists_blamed {tokens : List Token} {e : ReadError} (h : ofTokens tokens = .error e) :
    ∃ reason, ∃ t ∈ tokens, e = .malformed reason t.span ∧ reason.Blames t := by
  obtain ⟨reason, t, ht, he, hblames⟩ := ofTokens.exists_blamed_go (by simp) h
  exact ⟨reason, t, by simpa using ht, he, hblames⟩

end Parameters
end PddlOutline
