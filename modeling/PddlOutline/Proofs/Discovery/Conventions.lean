import Mathlib.Data.List.TakeDrop
import Mathlib.Data.Nat.Find
import PddlOutline.Files.Discovery
import PddlOutline.Proofs.Text.FirstMatch

/-!
This module contains the names that a domain may have by convention if the name of one of its
problems is known. Each convention has a rank, and the candidates are the names in the order of
their best ranks.
-/

namespace PddlOutline
namespace Discovery

/-! Lists without repetition that keep the first of each member. -/

section Ranking

variable {α : Type}

/--
Whether a list has the members with a rank, each of them once and those with better ranks first. A
member may have several ranks, of which the lowest counts.
-/
structure IsRanking (rank : Nat → α → Prop) (as : List α) : Prop where
  nodup : as.Nodup
  mem_iff : ∀ a, a ∈ as ↔ ∃ k, rank k a
  sorted : as.Pairwise fun a b => ∃ k, rank k a ∧ ∀ l, rank l b → k < l

theorem IsRanking.exists_least {rank : Nat → α → Prop} {as : List α} (h : IsRanking rank as) {a : α}
    (ha : a ∈ as) : ∃ k, rank k a ∧ ∀ l, rank l a → k ≤ l := by
  classical
  have hrank := (h.mem_iff a).mp ha
  exact ⟨Nat.find hrank, Nat.find_spec hrank, fun _ => Nat.find_min' hrank⟩

/--
The rank of what is listed, if there may be nothing at a rank.
-/
def IsListed (options : List (Option α)) (k : Nat) (a : α) : Prop :=
  options[k]? = some (some a)

theorem isListed_cons {o : Option α} {options : List (Option α)} {k : Nat} {a : α} :
    IsListed (o :: options) k a ↔
      (k = 0 ∧ o = some a) ∨ ∃ l, k = l + 1 ∧ IsListed options l a := by
  cases k with
  | zero => simp [IsListed]
  | succ k => simp [IsListed]

variable [BEq α] [LawfulBEq α]

theorem isListed_map_filter {options : List (Option α)} {k : Nat} {a b : α} (hb : b ≠ a) :
    IsListed (options.map (Option.filter (!· == a))) k b ↔ IsListed options k b := by
  simp only [IsListed, List.getElem?_map, Option.map_eq_some_iff, Option.filter_eq_some_iff]
  constructor
  . rintro ⟨o, ho, rfl, _⟩
    exact ho
  . intro h
    exact ⟨some b, h, rfl, by simpa using hb⟩

theorem sorted_eraseDups (options : List (Option α)) :
    (options.filterMap id).eraseDups.Pairwise fun a b =>
      ∃ k, IsListed options k a ∧ ∀ l, IsListed options l b → k < l := by
  match options with
  | [] => exact .nil
  | none :: options =>
    rw [List.filterMap_cons_none rfl]
    apply (sorted_eraseDups options).imp
    rintro a b ⟨k, hk, hlater⟩
    refine ⟨k + 1, isListed_cons.mpr (.inr ⟨k, rfl, hk⟩), ?_⟩
    intro l hl
    rcases isListed_cons.mp hl with ⟨_, hnone⟩ | ⟨l, rfl, hl⟩
    . cases hnone
    . exact Nat.succ_lt_succ (hlater l hl)
  | some a :: options =>
    -- What is left of the list is that of the other options.
    have hrest : (options.filterMap id).filter (!· == a)
        = (options.map (Option.filter (!· == a))).filterMap id := by
      rw [List.filter_filterMap, List.filterMap_map]
      rfl
    have hne : ∀ b ∈ ((options.map (Option.filter (!· == a))).filterMap id).eraseDups, b ≠ a := by
      intro b hb
      rw [List.mem_eraseDups, ← hrest, List.mem_filter] at hb
      simpa using hb.2
    have hcons : (some a :: options).filterMap id = a :: options.filterMap id := rfl
    rw [hcons, List.eraseDups_cons, hrest, List.pairwise_cons]
    constructor
    . intro b hb
      refine ⟨0, isListed_cons.mpr (.inl ⟨rfl, rfl⟩), ?_⟩
      intro l hl
      rcases isListed_cons.mp hl with ⟨_, hsame⟩ | ⟨l, rfl, _⟩
      . exact absurd (Option.some.inj hsame).symm (hne b hb)
      . exact Nat.succ_pos l
    . apply (sorted_eraseDups _).imp_of_mem
      rintro b c hb hc ⟨k, hk, hlater⟩
      refine ⟨k + 1, isListed_cons.mpr (.inr ⟨k, rfl, (isListed_map_filter (hne b hb)).mp hk⟩), ?_⟩
      intro l hl
      rcases isListed_cons.mp hl with ⟨_, hsame⟩ | ⟨l, rfl, hl⟩
      . exact absurd (Option.some.inj hsame).symm (hne c hc)
      . exact Nat.succ_lt_succ (hlater l ((isListed_map_filter (hne c hc)).mpr hl))
termination_by options.length

theorem isRanking_eraseDups (options : List (Option α)) :
    IsRanking (IsListed options) (options.filterMap id).eraseDups := by
  have hsorted := sorted_eraseDups options
  refine ⟨?_, ?_, hsorted⟩
  . apply hsorted.imp
    rintro a b ⟨k, hk, hlater⟩ rfl
    exact Nat.lt_irrefl k (hlater k hk)
  . intro a
    rw [List.mem_eraseDups, List.mem_filterMap]
    simp [IsListed, List.mem_iff_getElem?]

end Ranking

/-! What the conventions say. -/

def IsStem (stem : List Char) : Prop :=
  stem ≠ [] ∧ '\n' ∉ stem

/--
The names that a domain may have if a problem has the name `name`, and the ranks of the conventions.
-/
inductive Suggests (name : List Char) : Nat → List Char → Prop
  | plain : Suggests name 0 "domain.pddl".toList
  | series {stem part : List Char} (hstem : IsStem stem) (hne : part ≠ []) (hdot : '.' ∉ part)
    (hname : name = stem ++ '.' :: (part ++ ".pb.pddl".toList)) :
    Suggests name 1 (stem ++ ".dom.pddl".toList)
  | problem {stem : List Char} (hstem : IsStem stem) (hname : name = stem ++ ".pb.pddl".toList) :
    Suggests name 2 (stem ++ ".dom.pddl".toList)
  | after {stem : List Char} (hstem : IsStem stem) (hname : name = stem ++ ".pddl".toList) :
    Suggests name 3 (stem ++ "-domain.pddl".toList)
  | before {stem : List Char} (hstem : IsStem stem) (hname : name = stem ++ ".pddl".toList) :
    Suggests name 4 ("domain-".toList ++ (stem ++ ".pddl".toList))
  | numbered {number : List Char} (hne : number ≠ []) (hdigit : ∀ c ∈ number, '0' ≤ c ∧ c ≤ '9')
    (hname : name = "instance-".toList ++ (number ++ ".pddl".toList)) :
    Suggests name 5 ("domain-".toList ++ (number ++ ".pddl".toList))

section Stems

variable {ending name stem cs : List Char}

theorem stem?_eq_some_iff :
    stem? ending name = some stem ↔ IsStem stem ∧ name = stem ++ ending := by
  have hstem : ∀ stem : List Char,
      (if stem.isEmpty || stem.contains '\n' then none else some stem) = some stem
        ↔ IsStem stem := by
    intro stem
    simp [IsStem]
  rw [stem?]
  constructor
  . intro h
    split at h
    next hsuffix =>
      obtain ⟨front, rfl⟩ := List.isSuffixOf_iff_suffix.mp hsuffix
      rw [List.length_append, Nat.add_sub_cancel, List.take_left] at h
      have hfront : front = stem := by
        rw [Option.ite_none_left_eq_some] at h
        exact Option.some.inj h.2
      exact ⟨(hstem stem).mp (hfront ▸ h), by rw [hfront]⟩
    next => cases h
  . rintro ⟨h, rfl⟩
    rw [if_pos (by simp), List.length_append, Nat.add_sub_cancel, List.take_left]
    exact (hstem stem).mpr h

theorem beforeExtension?_eq_some_iff :
    beforeExtension? cs = some stem ↔
      ∃ part, part ≠ [] ∧ '.' ∉ part ∧ cs = stem ++ '.' :: part := by
  have hspan : cs.reverse.span (· ≠ '.')
      = (cs.reverse.takeWhile (· ≠ '.'), cs.reverse.dropWhile (· ≠ '.')) :=
    List.span_eq_takeWhile_dropWhile _ _
  rw [beforeExtension?]
  constructor
  . intro h
    split at h
    next => cases h
    next => cases h
    next part dot front hne hsplit =>
      rw [hspan, Prod.mk.injEq] at hsplit
      obtain ⟨hcs, hpart, hdot⟩ := Text.span_iff.mp hsplit
      have hfront : front.reverse = stem := Option.some.inj h
      have hdot' : dot = '.' := by simpa using hdot dot rfl
      refine ⟨part.reverse, ?_, ?_, ?_⟩
      . simpa using hne
      . intro hmem
        simpa using hpart '.' (List.mem_reverse.mp hmem)
      . rw [← List.reverse_reverse cs, hcs, hdot', ← hfront]
        simp
  . rintro ⟨part, hne, hdot, rfl⟩
    have hsplit : (stem ++ '.' :: part).reverse.span (· ≠ '.')
        = (part.reverse, '.' :: stem.reverse) := by
      rw [List.span_eq_takeWhile_dropWhile, Prod.mk.injEq]
      apply Text.span_iff.mpr
      refine ⟨by simp, ?_, by simp⟩
      intro c hc
      simpa using ne_of_mem_of_not_mem (List.mem_reverse.mp hc) hdot
    obtain ⟨c, rest, hrest⟩ := List.exists_cons_of_ne_nil (List.reverse_eq_nil_iff.not.mpr hne)
    rw [hsplit, hrest]
    show some stem.reverse.reverse = some stem
    rw [List.reverse_reverse]

theorem seriesStem?_eq_some_iff :
    seriesStem? name = some stem ↔ IsStem stem ∧ ∃ part, part ≠ [] ∧ '.' ∉ part
      ∧ name = stem ++ '.' :: (part ++ ".pb.pddl".toList) := by
  rw [seriesStem?]
  constructor
  . intro h
    split at h
    next hsuffix =>
      obtain ⟨front, rfl⟩ := List.isSuffixOf_iff_suffix.mp hsuffix
      rw [List.length_append, Nat.add_sub_cancel, List.take_left, Option.bind_eq_some_iff] at h
      obtain ⟨_, hbefore, hstem⟩ := h
      obtain ⟨part, hne, hdot, rfl⟩ := beforeExtension?_eq_some_iff.mp hbefore
      obtain ⟨hstem', rfl⟩ := stem?_eq_some_iff.mp hstem
      exact ⟨hstem', part, hne, hdot, by simp⟩
    next => cases h
  . rintro ⟨hstem, part, hne, hdot, rfl⟩
    have hname : stem ++ '.' :: (part ++ ".pb.pddl".toList)
        = (stem ++ '.' :: part) ++ ".pb.pddl".toList := by simp
    have hsuffix : ".pb.pddl".toList.isSuffixOf (stem ++ '.' :: part ++ ".pb.pddl".toList) :=
      List.isSuffixOf_iff_suffix.mpr (List.suffix_append _ _)
    rw [hname, if_pos hsuffix, List.length_append, Nat.add_sub_cancel, List.take_left,
      Option.bind_eq_some_iff]
    exact ⟨stem, beforeExtension?_eq_some_iff.mpr ⟨part, hne, hdot, rfl⟩,
      stem?_eq_some_iff.mpr ⟨hstem, by simp⟩⟩

theorem instanceNumber?_eq_some_iff {number : List Char} :
    instanceNumber? name = some number ↔
      number ≠ [] ∧ (∀ c ∈ number, '0' ≤ c ∧ c ≤ '9')
        ∧ name = "instance-".toList ++ (number ++ ".pddl".toList) := by
  have hdigit : number.all Char.isDigit ↔ ∀ c ∈ number, '0' ≤ c ∧ c ≤ '9' := by
    simp only [List.all_eq_true, Char.isDigit, Bool.and_eq_true, decide_eq_true_eq]
    rfl
  simp only [instanceNumber?, Option.bind_eq_bind, Option.bind_eq_some_iff, stem?_eq_some_iff,
    Option.ite_none_right_eq_some, Option.some.injEq, Bool.and_eq_true, List.isPrefixOf_iff_prefix]
  constructor
  . rintro ⟨stem, ⟨_, rfl⟩, ⟨⟨⟨rest, rfl⟩, hne⟩, hall⟩, hnumber⟩
    rw [List.drop_left] at hne hall hnumber
    subst hnumber
    exact ⟨by simpa using hne, hdigit.mp hall, by simp⟩
  . rintro ⟨hne, hall, rfl⟩
    refine ⟨"instance-".toList ++ number, ⟨⟨by simp, ?_⟩, by simp⟩, ?_⟩
    . intro hfeed
      rcases List.mem_append.mp hfeed with hfeed | hfeed
      . exact absurd hfeed (by decide)
      . exact absurd (hall _ hfeed) (by decide)
    . rw [List.drop_left]
      exact ⟨⟨⟨List.prefix_append _ _, by simpa using hne⟩, hdigit.mpr hall⟩, rfl⟩

end Stems

/-! The candidates are ranked by the conventions. -/

def suggestions (name : List Char) : List (Option (List Char)) :=
  let domainOf (stem : List Char) : List Char := stem ++ ".dom.pddl".toList
  let after (stem : List Char) : List Char := stem ++ "-domain.pddl".toList
  let before (stem : List Char) : List Char := "domain-".toList ++ stem ++ ".pddl".toList
  let plain := stem? ".pddl".toList name
  [some "domain.pddl".toList, (seriesStem? name).map domainOf, (problemStem? name).map domainOf,
    plain.map after, plain.map before, (instanceNumber? name).map before]

theorem conventionalNames_eq (name : List Char) :
    conventionalNames name = (suggestions name).filterMap id := rfl

theorem isListed_suggestions {name : List Char} {k : Nat} {candidate : List Char} :
    IsListed (suggestions name) k candidate ↔ Suggests name k candidate := by
  constructor
  . intro h
    match k with
    | 0 =>
      obtain rfl : "domain.pddl".toList = candidate := Option.some.inj (Option.some.inj h)
      exact .plain
    | 1 =>
      obtain ⟨stem, hstem, rfl⟩ := Option.map_eq_some_iff.mp (Option.some.inj h)
      obtain ⟨hstem, part, hne, hdot, hname⟩ := seriesStem?_eq_some_iff.mp hstem
      exact .series hstem hne hdot hname
    | 2 =>
      obtain ⟨stem, hstem, rfl⟩ := Option.map_eq_some_iff.mp (Option.some.inj h)
      obtain ⟨hstem, hname⟩ := stem?_eq_some_iff.mp hstem
      exact .problem hstem hname
    | 3 =>
      obtain ⟨stem, hstem, rfl⟩ := Option.map_eq_some_iff.mp (Option.some.inj h)
      obtain ⟨hstem, hname⟩ := stem?_eq_some_iff.mp hstem
      exact .after hstem hname
    | 4 =>
      obtain ⟨stem, hstem, rfl⟩ := Option.map_eq_some_iff.mp (Option.some.inj h)
      obtain ⟨hstem, hname⟩ := stem?_eq_some_iff.mp hstem
      exact .before hstem hname
    | 5 =>
      obtain ⟨number, hnumber, rfl⟩ := Option.map_eq_some_iff.mp (Option.some.inj h)
      obtain ⟨hne, hdigit, hname⟩ := instanceNumber?_eq_some_iff.mp hnumber
      exact .numbered hne hdigit hname
    | k + 6 => cases h
  . intro h
    cases h with
    | plain => rfl
    | series hstem hne hdot hname =>
      exact congrArg some (Option.map_eq_some_iff.mpr
        ⟨_, seriesStem?_eq_some_iff.mpr ⟨hstem, _, hne, hdot, hname⟩, rfl⟩)
    | problem hstem hname =>
      exact congrArg some (Option.map_eq_some_iff.mpr
        ⟨_, stem?_eq_some_iff.mpr ⟨hstem, hname⟩, rfl⟩)
    | after hstem hname =>
      exact congrArg some (Option.map_eq_some_iff.mpr
        ⟨_, stem?_eq_some_iff.mpr ⟨hstem, hname⟩, rfl⟩)
    | before hstem hname =>
      exact congrArg some (Option.map_eq_some_iff.mpr
        ⟨_, stem?_eq_some_iff.mpr ⟨hstem, hname⟩, rfl⟩)
    | numbered hne hdigit hname =>
      exact congrArg some (Option.map_eq_some_iff.mpr
        ⟨_, instanceNumber?_eq_some_iff.mpr ⟨hne, hdigit, hname⟩, rfl⟩)

theorem isRanking_domainNames (name : List Char) :
    IsRanking (Suggests name) (domainNames name) := by
  have h := isRanking_eraseDups (suggestions name)
  have hrank : IsListed (suggestions name) = Suggests name :=
    funext fun _ => funext fun _ => propext isListed_suggestions
  rwa [hrank, ← conventionalNames_eq] at h

end Discovery
end PddlOutline
