import Mathlib.Data.List.Chain
import PddlOutline.Proofs.Expressions

/-!
This module contains which groups of a list are outermost, where the groups may be any pairs of
offsets. A sweep through the sorted groups leaves out what opens before the last group it has kept
is closed, so the order of the list plays no role. Among groups that are disjoint or nested it keeps
those that are in no other one.
-/

namespace PddlOutline
namespace Group

variable {gs hs kept : List Group} {marks : List (Group × Bool)} {consumed : Option Nat}
  {g h k : Group}

instance (g h : Group) : Decidable (g.Precedes h) :=
  inferInstanceAs (Decidable (_ < _))

/-! What a sweep keeps is kept by any other sweep. -/

/--
Whether each group opens behind the end of the one before it, and the first one behind what has been
consumed.
-/
def IsSwept (consumed : Option Nat) (gs : List Group) : Prop :=
  gs.IsChain Precedes ∧ ∀ g ∈ gs.head?, ∀ k ∈ consumed, k < g.opening

theorem isSwept_cons :
    IsSwept consumed (g :: gs) ↔
      (∀ k ∈ consumed, k < g.opening) ∧ IsSwept (some g.closing) gs := by
  simp only [IsSwept, List.isChain_cons, List.head?_cons, Option.mem_some_iff, forall_eq',
    Precedes]
  tauto

theorem isSwept_sweep (consumed : Option Nat) (gs : List Group) :
    IsSwept consumed (sweep consumed gs) := by
  fun_induction sweep consumed gs with
  | case1 consumed => exact ⟨.nil, by simp⟩
  | case2 consumed g gs hconsumed ih => exact ih
  | case3 consumed g gs hfree ih =>
    rw [isSwept_cons]
    refine ⟨?_, ih⟩
    intro k hk
    rw [Option.mem_def] at hk
    simpa [hk] using hfree

theorem sweep_of_isSwept (h : IsSwept consumed gs) : sweep consumed gs = gs := by
  induction gs generalizing consumed with
  | nil => rfl
  | cons g gs ih =>
    rw [isSwept_cons] at h
    rw [sweep, if_neg, ih h.2]
    rw [Option.any_eq_true]
    rintro ⟨k, hk, hle⟩
    have := h.1 k hk
    have := of_decide_eq_true hle
    omega

theorem sweep_sublist (consumed : Option Nat) (gs : List Group) :
    (sweep consumed gs).Sublist gs := by
  fun_induction sweep consumed gs with
  | case1 => exact .slnil
  | case2 consumed g gs _ ih => exact ih.cons g
  | case3 consumed g gs _ ih => exact ih.cons_cons g

theorem outermost_sublist (gs : List Group) : (outermost gs).Sublist (sort gs) :=
  sweep_sublist none (sort gs)

theorem mem_of_mem_outermost (h : g ∈ outermost gs) : g ∈ gs :=
  (sort_perm gs).subset ((outermost_sublist gs).subset h)

theorem isSwept_outermost (gs : List Group) : IsSwept none (outermost gs) :=
  isSwept_sweep none (sort gs)

theorem outermost_congr (h : gs.Perm hs) : outermost gs = outermost hs := by
  rw [outermost, sort_congr h, outermost]

theorem outermost_outermost (gs : List Group) : outermost (outermost gs) = outermost gs := by
  have hsorted := (sorted_sort gs).sublist (outermost_sublist gs)
  rw [outermost, sort_of_sorted hsorted]
  apply sweep_of_isSwept
  apply isSwept_outermost

/-! What a sweep leaves out. -/

/--
The groups that are marked as kept.
-/
def marked (marks : List (Group × Bool)) : List Group :=
  (marks.filter Prod.snd).map Prod.fst

/--
Whether marks on all groups of a list tell which of them are kept. A group that is left out opens no
later than a group is closed that is kept before it.
-/
structure IsChoice (gs kept : List Group) (marks : List (Group × Bool)) : Prop where
  groups : marks.map Prod.fst = gs
  kept : marked marks = kept
  reached : ∀ front g rest, marks = front ++ (g, false) :: rest →
    ∃ h ∈ marked front, g.opening ≤ h.closing

theorem IsChoice.mem_groups {isKept : Bool} (h : IsChoice gs kept marks)
    (hg : (g, isKept) ∈ marks) : g ∈ gs := by
  rw [← h.groups]
  exact List.mem_map_of_mem hg

theorem IsChoice.mem_kept (h : IsChoice gs kept marks) (hg : (g, true) ∈ marks) : g ∈ kept := by
  rw [← h.kept, marked]
  exact List.mem_map_of_mem (List.mem_filter.mpr ⟨hg, rfl⟩)

theorem exists_marks (consumed : Option Nat) (gs : List Group) :
    ∃ marks, marks.map Prod.fst = gs ∧ marked marks = sweep consumed gs
      ∧ ∀ front g rest, marks = front ++ (g, false) :: rest →
        (∃ k ∈ consumed, g.opening ≤ k) ∨ ∃ h ∈ marked front, g.opening ≤ h.closing := by
  fun_induction sweep consumed gs with
  | case1 => exact ⟨[], rfl, rfl, by simp⟩
  | case2 consumed g gs hconsumed ih =>
    obtain ⟨marks, hgroups, hkept, hreached⟩ := ih
    refine ⟨(g, false) :: marks, congrArg (g :: ·) hgroups, hkept, ?_⟩
    intro front h rest hmarks
    cases front with
    | nil =>
      cases hmarks
      rw [Option.any_eq_true] at hconsumed
      obtain ⟨k, hk, hle⟩ := hconsumed
      exact .inl ⟨k, hk, of_decide_eq_true hle⟩
    | cons mark front =>
      rw [List.cons_append, List.cons.injEq] at hmarks
      obtain ⟨rfl, hmarks⟩ := hmarks
      exact hreached front h rest hmarks
  | case3 consumed g gs hfree ih =>
    obtain ⟨marks, hgroups, hkept, hreached⟩ := ih
    refine ⟨(g, true) :: marks, congrArg (g :: ·) hgroups, congrArg (g :: ·) hkept, ?_⟩
    intro front h rest hmarks
    cases front with
    | nil => cases hmarks
    | cons mark front =>
      rw [List.cons_append, List.cons.injEq] at hmarks
      obtain ⟨rfl, hmarks⟩ := hmarks
      have hmarked : marked ((g, true) :: front) = g :: marked front := rfl
      rw [hmarked]
      -- What was consumed before `g` plays no role any more.
      rcases hreached front h rest hmarks with ⟨k, hk, hle⟩ | ⟨h', hh', hle⟩
      . cases hk
        exact .inr ⟨g, List.mem_cons_self, hle⟩
      . exact .inr ⟨h', List.mem_cons_of_mem g hh', hle⟩

theorem exists_isChoice (gs : List Group) : ∃ marks, IsChoice (sort gs) (outermost gs) marks := by
  obtain ⟨marks, hgroups, hkept, hreached⟩ := exists_marks none (sort gs)
  refine ⟨marks, hgroups, hkept, ?_⟩
  intro front g rest hmarks
  simpa using hreached front g rest hmarks

/-! What a sweep keeps of groups that are disjoint or nested. -/

def IsDisjoint (g h : Group) : Prop :=
  g.Precedes h ∨ h.Precedes g

instance (g h : Group) : Decidable (g.IsDisjoint h) :=
  inferInstanceAs (Decidable (_ ∨ _))

instance : Std.Symm IsDisjoint where
  symm _ _ := Or.symm

/--
Whether no offset from the opening to the closing one of `h` is outside of `g`.
-/
def Includes (g h : Group) : Prop :=
  g.opening ≤ h.opening ∧ h.closing ≤ g.closing

instance (g h : Group) : Decidable (g.Includes h) :=
  inferInstanceAs (Decidable (_ ∧ _))

theorem Includes.trans (hg : g.Includes h) (hh : h.Includes k) : g.Includes k :=
  ⟨Nat.le_trans hg.1 hh.1, Nat.le_trans hh.2 hg.2⟩

theorem Includes.antisymm (hg : g.Includes h) (hh : h.Includes g) : g = h := by
  cases g
  cases h
  rw [mk.injEq]
  exact ⟨Nat.le_antisymm hg.1 hh.1, Nat.le_antisymm hh.2 hg.2⟩

theorem IsDisjoint.not_includes (h : g.IsDisjoint k) (hk : k.opening ≤ k.closing) :
    ¬ g.Includes k := by
  simp only [IsDisjoint, Precedes, Includes] at h ⊢
  omega

/--
Whether groups open at different offsets, do not close before they open, and are disjoint or nested.
-/
structure IsLaminar (gs : List Group) : Prop where
  nodup : (gs.map opening).Nodup
  opens : ∀ g ∈ gs, g.opening ≤ g.closing
  apart : ∀ g ∈ gs, ∀ h ∈ gs, g ≠ h → g.IsDisjoint h ∨ g.Includes h ∨ h.Includes g

theorem pairwise_of_isSwept (h : IsSwept consumed gs) (hopens : ∀ g ∈ gs, g.opening ≤ g.closing) :
    gs.Pairwise Precedes ∧ ∀ g ∈ gs, ∀ k ∈ consumed, k < g.opening := by
  induction gs generalizing consumed with
  | nil => exact ⟨.nil, by simp⟩
  | cons g gs ih =>
    rw [isSwept_cons] at h
    rw [List.forall_mem_cons] at hopens
    obtain ⟨hpairwise, hbehind⟩ := ih h.2 hopens.2
    rw [List.pairwise_cons, List.forall_mem_cons]
    refine ⟨⟨fun h hh => hbehind h hh g.closing rfl, hpairwise⟩, h.1, ?_⟩
    intro h' hh' k hk
    have := h.1 k hk
    have := hbehind h' hh' g.closing rfl
    omega

namespace IsLaminar

theorem pairwise_sort (hgs : IsLaminar gs) : (sort gs).Pairwise (·.opening < ·.opening) := by
  have hnodup : ((sort gs).map opening).Nodup :=
    ((sort_perm gs).map opening).nodup_iff.mpr hgs.nodup
  rw [List.Nodup, List.pairwise_map] at hnodup
  apply ((sorted_sort gs).and hnodup).imp
  rintro g h ⟨hle, hne⟩
  simp only [le, Bool.or_eq_true, Bool.and_eq_true, decide_eq_true_eq, beq_iff_eq] at hle
  omega

theorem eq_of_includes (hgs : IsLaminar gs) (hg : g ∈ outermost gs) (hh : h ∈ outermost gs)
    (hincludes : g.Includes h) : g = h := by
  have hopens : ∀ g ∈ outermost gs, g.opening ≤ g.closing :=
    fun g hg => hgs.opens g (mem_of_mem_outermost hg)
  have hpairwise := (pairwise_of_isSwept (isSwept_outermost gs) hopens).1
  have hdisjoint : (outermost gs).Pairwise IsDisjoint := hpairwise.imp .inl
  by_contra hne
  exact (hdisjoint.forall hg hh hne).not_includes (hopens h hh) hincludes

/--
What is left out is in a group that is kept.
-/
theorem exists_includes (hgs : IsLaminar gs) (hmarks : IsChoice (sort gs) (outermost gs) marks)
    (hg : (g, false) ∈ marks) : ∃ h ∈ outermost gs, h ≠ g ∧ h.Includes g := by
  obtain ⟨front, rest, rfl⟩ := List.append_of_mem hg
  obtain ⟨h, hh, hreached⟩ := hmarks.reached front g rest rfl
  have hkept : h ∈ outermost gs := by
    rw [← hmarks.kept, marked, List.filter_append, List.map_append]
    exact List.mem_append_left _ hh
  have hlt : h.opening < g.opening := by
    have hpairwise := hgs.pairwise_sort
    rw [← hmarks.groups, List.map_append, List.pairwise_append] at hpairwise
    apply hpairwise.2.2
    . exact (List.filter_sublist.map Prod.fst).subset hh
    . exact List.mem_cons_self
  have hne : h ≠ g := by
    rintro rfl
    exact Nat.lt_irrefl _ hlt
  have hmem : g ∈ gs := (sort_perm gs).subset (hmarks.mem_groups hg)
  have hopens := hgs.opens g hmem
  refine ⟨h, hkept, hne, ?_⟩
  rcases hgs.apart h (mem_of_mem_outermost hkept) g hmem hne with hdisjoint | hincludes | hincludes
  . simp only [IsDisjoint, Precedes] at hdisjoint
    omega
  . exact hincludes
  . have := hincludes.1
    omega

theorem eq_of_mem_outermost (hgs : IsLaminar gs) (hg : g ∈ outermost gs) (hh : h ∈ gs)
    (hincludes : h.Includes g) : h = g := by
  obtain ⟨marks, hmarks⟩ := exists_isChoice gs
  have hmem : h ∈ marks.map Prod.fst := by
    rw [hmarks.groups]
    exact (sort_perm gs).symm.subset hh
  obtain ⟨⟨h, isKept⟩, hmark, rfl⟩ := List.mem_map.mp hmem
  cases isKept with
  | true => exact hgs.eq_of_includes (hmarks.mem_kept hmark) hg hincludes
  | false =>
    -- The group that is kept around `h` can only be `g`, so `h` and `g` are in each other.
    obtain ⟨k, hk, _, hkincludes⟩ := hgs.exists_includes hmarks hmark
    have hkg := hgs.eq_of_includes hk hg (hkincludes.trans hincludes)
    rw [hkg] at hkincludes
    exact hincludes.antisymm hkincludes

theorem outermost_eq_filter (hgs : IsLaminar gs) :
    outermost gs = (sort gs).filter fun g => ∀ h ∈ gs, h ≠ g → ¬ h.Includes g := by
  obtain ⟨marks, hmarks⟩ := exists_isChoice gs
  rw [← hmarks.kept, ← hmarks.groups, marked, List.filter_map]
  apply congrArg
  apply List.filter_congr
  rintro ⟨g, isKept⟩ hmark
  cases isKept with
  | true =>
    have hg := hmarks.mem_kept hmark
    simpa using fun h hh hne hincludes => hne (hgs.eq_of_mem_outermost hg hh hincludes)
  | false =>
    obtain ⟨h, hh, hne, hincludes⟩ := hgs.exists_includes hmarks hmark
    simpa using ⟨h, mem_of_mem_outermost hh, hne, hincludes⟩

end IsLaminar
end Group

/--
What is kept of a list of groups does not depend on their order and is all kept again. It is in
order, each group opens behind the end of the one before it, and what is left out is reached by a
group that is kept before it. Of groups that are disjoint or nested, those are kept that are in no
other one.
-/
theorem sweep_keeps_outermost (gs : List Group) :
    (∀ hs, gs.Perm hs → Group.outermost hs = Group.outermost gs)
    ∧ Group.outermost (Group.outermost gs) = Group.outermost gs
    ∧ ((Group.sort gs).Perm gs ∧ (Group.sort gs).Pairwise fun g h => Group.le g h)
    ∧ (Group.outermost gs).Sublist (Group.sort gs)
    ∧ (Group.outermost gs).IsChain (fun g h => g.closing < h.opening)
    ∧ (∃ marks, Group.IsChoice (Group.sort gs) (Group.outermost gs) marks)
    ∧ (Group.IsLaminar gs →
        Group.outermost gs = (Group.sort gs).filter fun g => ∀ h ∈ gs, h ≠ g → ¬ h.Includes g) :=
  ⟨fun _ h => (Group.outermost_congr h).symm, Group.outermost_outermost gs,
    ⟨Group.sort_perm gs, Group.sorted_sort gs⟩, Group.outermost_sublist gs,
    (Group.isSwept_outermost gs).1, Group.exists_isChoice gs, Group.IsLaminar.outermost_eq_filter⟩

/--
Groups that touch, and groups that close before they open, behind which the sweep goes back.
-/
theorem sweep_keeps_outermost_inverted :
    let gs : List Group := [⟨10, 12⟩, ⟨0, 8⟩, ⟨2, 4⟩, ⟨9, 9⟩]
    let hs : List Group := [⟨9, 9⟩, ⟨2, 4⟩, ⟨0, 8⟩, ⟨10, 12⟩]
    let inverted : List Group := [⟨5, 2⟩, ⟨2, 4⟩, ⟨5, 2⟩, ⟨4, 6⟩]
    gs.Perm hs ∧ Group.outermost hs = Group.outermost gs
      ∧ Group.IsLaminar gs
      ∧ Group.outermost gs
        = (Group.sort gs).filter (fun g => ∀ h ∈ gs, h ≠ g → ¬ h.Includes g)
      ∧ Group.outermost gs = [⟨0, 8⟩, ⟨9, 9⟩, ⟨10, 12⟩]
      ∧ Group.outermost inverted = [⟨2, 4⟩, ⟨5, 2⟩, ⟨5, 2⟩]
      ∧ ∃ marks, Group.IsChoice (Group.sort inverted) (Group.outermost inverted) marks := by
  intro gs hs inverted
  have hperm : gs.Perm hs := by decide
  have hlaminar : Group.IsLaminar gs := ⟨by decide, by decide, by decide⟩
  obtain ⟨hcongr, _, _, _, _, _, hfilter⟩ := sweep_keeps_outermost gs
  obtain ⟨_, _, _, _, _, hchoice, _⟩ := sweep_keeps_outermost inverted
  exact ⟨hperm, hcongr hs hperm, hlaminar, hfilter hlaminar, by decide, by decide, hchoice⟩

end PddlOutline
