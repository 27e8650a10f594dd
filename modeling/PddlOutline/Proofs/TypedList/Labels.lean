import Mathlib.Data.List.Basic
import PddlOutline.Proofs.TokenLists

/-!
This module contains which names and types there are in a typed list. They are the symbols of its
tokens but the separators, and `object` may be among them although no token has this symbol.
-/

namespace PddlOutline

namespace TypedGroup

def tokens (g : TypedGroup) : List Token :=
  g.names ++ g.type.toList

/--
Groups lose nothing but the separators.
-/
theorem flatMap_tokens_of_ofTokens {ts : List Token} {groups : List TypedGroup}
    (h : ofTokens ts = .ok groups) :
    groups.flatMap tokens = ts.filter (!·.isSeparator) := by
  fun_induction ofTokens ts generalizing groups with
  | case1 =>
    cases h
    rfl
  | case2 => cases h
  | case3 => cases h
  | case4 token hsep type ts htype ih =>
    obtain ⟨groups, hgroups, rfl⟩ := Outcome.map_eq_ok.mp h
    rw [List.filter_cons_of_neg (by simpa using hsep),
      List.filter_cons_of_pos (by simpa using htype), ← ih hgroups]
    rfl
  | case5 token ts hsep ih =>
    obtain ⟨groups, hgroups, rfl⟩ := Outcome.map_eq_ok.mp h
    rw [List.filter_cons_of_pos (by simpa using hsep), ← ih hgroups,
      flatMap_consName (fun _ _ => rfl) rfl]

end TypedGroup

namespace TypedList

/--
The names and types in a typed list.
-/
def labels : TypedList → List String
  | .flat names => names
  | .grouped types => types.entries.flatMap fun (type, names) => type :: names

theorem mem_labels_alter {types : NameMap (List String)} {type label : String}
    {names : List String} :
    label ∈ (grouped (types.alter type fun old => old.getD [] ++ names)).labels ↔
      label ∈ (grouped types).labels ∨ label = type ∨ label ∈ names := by
  rw [labels, labels, NameMap.entries_alter]
  induction types.entries with
  | nil => simp [NameMap.alterEntries]
  | cons entry entries ih =>
    rw [NameMap.alterEntries]
    split
    . simp
      grind
    . simp
      grind

theorem mem_labels_addGroup {types : NameMap (List String)} {group : TypedGroup} {label : String} :
    label ∈ (grouped (addGroup types group)).labels ↔
      label ∈ (grouped types).labels ∨ label = (group.type.map Token.symbol).getD defaultType
        ∨ ∃ token ∈ group.names, token.symbol = label := by
  rw [addGroup, mem_labels_alter, List.mem_map]

theorem mem_labels_foldl {groups : List TypedGroup} {types : NameMap (List String)}
    {label : String} :
    label ∈ (grouped (groups.foldl addGroup types)).labels ↔
      label ∈ (grouped types).labels
        ∨ ∃ group ∈ groups, label = (group.type.map Token.symbol).getD defaultType
          ∨ ∃ token ∈ group.names, token.symbol = label := by
  induction groups generalizing types with
  | nil => simp
  | cons group groups ih =>
    rw [List.foldl_cons, ih, mem_labels_addGroup, List.exists_mem_cons_iff, or_assoc]

theorem mem_labels_of_ofTokens {tokens : List Token} {l : TypedList} (h : ofTokens tokens = .ok l) :
    (∀ label ∈ l.labels, label = defaultType
      ∨ ∃ token ∈ tokens, ¬ token.isSeparator ∧ token.symbol = label)
    ∧ ∀ token ∈ tokens, ¬ token.isSeparator → token.symbol ∈ l.labels := by
  rw [ofTokens] at h
  split at h
  next =>
    obtain ⟨groups, hgroups, rfl⟩ := Outcome.map_eq_ok.mp h
    have htokens : ∀ token, token ∈ tokens ∧ ¬ token.isSeparator ↔
        ∃ group ∈ groups, token ∈ group.tokens := by
      intro token
      rw [← List.mem_flatMap, TypedGroup.flatMap_tokens_of_ofTokens hgroups, List.mem_filter,
        Bool.not_eq_true, Bool.not_eq_true']
    constructor
    . intro label hlabel
      rcases mem_labels_foldl.mp hlabel with hlabel
        | ⟨group, hgroup, hlabel | ⟨token, htoken, hsymbol⟩⟩
      . cases hlabel
      . cases htype : group.type with
        | none => exact .inl (by rw [hlabel, htype]; rfl)
        | some type =>
          have htoken := (htokens type).mpr ⟨group, hgroup, by simp [TypedGroup.tokens, htype]⟩
          exact .inr ⟨type, htoken.1, htoken.2, by rw [hlabel, htype]; rfl⟩
      . have htoken := (htokens token).mpr ⟨group, hgroup, List.mem_append_left _ htoken⟩
        exact .inr ⟨token, htoken.1, htoken.2, hsymbol⟩
    . intro token htoken hsep
      obtain ⟨group, hgroup, htoken⟩ := (htokens token).mp ⟨htoken, hsep⟩
      apply mem_labels_foldl.mpr
      refine .inr ⟨group, hgroup, ?_⟩
      cases List.mem_append.mp htoken with
      | inl hname => exact .inr ⟨token, hname, rfl⟩
      | inr htype =>
        rw [Option.mem_toList] at htype
        exact .inl (by rw [htype]; rfl)
  next hsep =>
    cases h
    have hnone : ∀ token ∈ tokens, ¬ token.isSeparator := by simpa using hsep
    constructor
    . intro label hlabel
      obtain ⟨token, htoken, hsymbol⟩ := List.mem_map.mp hlabel
      exact .inr ⟨token, htoken, hnone token htoken, hsymbol⟩
    . intro token htoken _
      exact List.mem_map_of_mem htoken

end TypedList

end PddlOutline
