import Mathlib.Data.List.Sort
import PddlOutline.Expressions
import PddlOutline.Proofs.Nesting.Forest

/-!
This module contains what is chosen among the groups of a forest: sorting leaves them as they are,
the outermost ones are the roots of the forest, and the expressions are the texts of the roots,
where a conjunction that comes first is replaced by its own roots.
-/

namespace PddlOutline
namespace Group

/-! Sorting puts groups into the one order that they have. -/

instance : Std.Total fun g h : Group => le g h where
  total g h := by
    simp only [le, Bool.or_eq_true, Bool.and_eq_true, decide_eq_true_eq, beq_iff_eq]
    omega

instance : IsTrans Group fun g h => le g h where
  trans f g h := by
    simp only [le, Bool.or_eq_true, Bool.and_eq_true, decide_eq_true_eq, beq_iff_eq]
    omega

instance : Std.Antisymm fun g h : Group => le g h where
  antisymm g h hgh hhg := by
    cases g
    cases h
    simp only [le, Bool.or_eq_true, Bool.and_eq_true, decide_eq_true_eq, beq_iff_eq] at hgh hhg
    rw [mk.injEq]
    omega

theorem insertSorted_eq_orderedInsert (g : Group) (gs : List Group) :
    insertSorted g gs = gs.orderedInsert (fun g h => le g h) g := by
  induction gs with
  | nil => rfl
  | cons h gs ih => rw [insertSorted, List.orderedInsert, ih]

theorem sort_eq_insertionSort (gs : List Group) :
    sort gs = gs.insertionSort fun g h => le g h := by
  induction gs with
  | nil => rfl
  | cons g gs ih =>
    rw [List.insertionSort_cons, ← ih, ← insertSorted_eq_orderedInsert]
    rfl

theorem sorted_sort (gs : List Group) : (sort gs).Pairwise fun g h => le g h := by
  rw [sort_eq_insertionSort]
  apply List.pairwise_insertionSort

theorem sort_of_sorted {gs : List Group} (h : gs.Pairwise fun g h => le g h) : sort gs = gs := by
  rw [sort_eq_insertionSort]
  exact h.insertionSort_eq

theorem sort_of_pairwise {gs : List Group} (h : gs.Pairwise (·.opening < ·.opening)) :
    sort gs = gs := by
  apply sort_of_sorted
  apply h.imp
  intro g g' hlt
  simp [le, hlt]

theorem sort_congr {gs hs : List Group} (h : gs.Perm hs) : sort gs = sort hs := by
  apply List.Perm.eq_of_pairwise' (sorted_sort gs) (sorted_sort hs)
  exact (sort_perm gs).trans (h.trans (sort_perm hs).symm)

/-! What a sweep keeps of the groups of a forest. -/

theorem sweep_consumed {k : Nat} {gs : List Group} (h : ∀ g ∈ gs, g.opening ≤ k) (hs : List Group) :
    sweep (some k) (gs ++ hs) = sweep (some k) hs := by
  induction gs with
  | nil => rfl
  | cons g gs ih =>
    rw [List.cons_append, sweep, if_pos]
    . exact ih fun g' hg' => h g' (List.mem_cons_of_mem g hg')
    . simpa using h g List.mem_cons_self

theorem sweep_groups (t : Forest) (offset : Nat) (consumed : Option Nat)
    (h : ∀ k ∈ consumed, k < offset) (hs : List Group) :
    ∃ consumed', (∀ k ∈ consumed', k < offset + Text.byteSize t.chars)
      ∧ sweep consumed (t.groups offset ++ hs) = t.roots offset ++ sweep consumed' hs := by
  have hopening : '('.utf8Size = 1 := by decide
  have hclosing : ')'.utf8Size = 1 := by decide
  -- What was consumed ends before the forest starts, and so it does for each rest of the forest.
  induction t generalizing offset consumed with
  | nil => exact ⟨consumed, h, rfl⟩
  | plain c hc rest ih =>
    rw [Forest.chars, Text.byteSize_cons, ← Nat.add_assoc]
    apply ih (offset + c.utf8Size) consumed
    intro k hk
    have := h k hk
    omega
  | group inside rest _ ihRest =>
    obtain ⟨consumed', hconsumed', hsweep⟩ :=
      ihRest (offset + 1 + Text.byteSize inside.chars + 1)
        (some (offset + 1 + Text.byteSize inside.chars)) (by simp)
    refine ⟨consumed', ?_, ?_⟩
    . intro k hk
      have := hconsumed' k hk
      simp only [Forest.chars, Text.byteSize_cons, Text.byteSize_append, hopening, hclosing]
      omega
    . have hfree : ¬ consumed.any (offset ≤ ·) := by
        cases consumed with
        | none => simp
        | some k => simpa using h k rfl
      have hinside : ∀ g ∈ inside.groups (offset + 1),
          g.opening ≤ offset + 1 + Text.byteSize inside.chars := by
        intro g hg
        have := Forest.bounds_of_mem_groups hg
        omega
      rw [Forest.groups, List.cons_append, sweep, if_neg hfree, List.append_assoc,
        sweep_consumed hinside, hsweep, Forest.roots, List.cons_append]

theorem outermost_groups (t : Forest) (offset : Nat) :
    outermost (t.groups offset) = t.roots offset := by
  rw [outermost, sort_of_pairwise (t.groups_pairwise offset)]
  obtain ⟨consumed, _, hsweep⟩ := sweep_groups t offset none (by simp) []
  rw [List.append_nil] at hsweep
  rw [hsweep, sweep, List.append_nil]

theorem outermost_append (t u : Forest) {offset behind : Nat}
    (h : offset + Text.byteSize t.chars ≤ behind) :
    outermost (t.groups offset ++ u.groups behind) = t.roots offset ++ u.roots behind := by
  have hsorted : (t.groups offset ++ u.groups behind).Pairwise (·.opening < ·.opening) := by
    rw [List.pairwise_append]
    refine ⟨t.groups_pairwise offset, u.groups_pairwise behind, ?_⟩
    intro g hg g' hg'
    have := Forest.bounds_of_mem_groups hg
    have := Forest.bounds_of_mem_groups hg'
    omega
  obtain ⟨consumed, hconsumed, hsweep⟩ :=
    sweep_groups t offset none (by simp) (u.groups behind)
  obtain ⟨_, _, hsweep'⟩ := sweep_groups u behind consumed
    (fun k hk => Nat.lt_of_lt_of_le (hconsumed k hk) h) []
  rw [List.append_nil] at hsweep'
  rw [outermost, sort_of_pairwise hsorted, hsweep, hsweep', sweep, List.append_nil]

end Group

namespace Fragment

variable {f : Fragment} {front rest : List Char}

theorem slice_of_append {part : List Char} (h : f.chars = front ++ (part ++ rest)) :
    f.slice ⟨f.start + Text.byteSize front, f.start + Text.byteSize front + Text.byteSize part⟩
      =
    .ok ⟨f.start + Text.byteSize front, part⟩ := by
  rw [slice_eq_ok_iff, slice?_eq_some_iff]
  exact ⟨rfl, front, rest, by simp [h], rfl⟩

theorem slice_of_enclosed {t : Forest} (h : f.chars = front ++ (t.enclosed ++ rest)) :
    f.slice (t.nesting (f.start + Text.byteSize front)).outer.span
      =
    .ok ⟨f.start + Text.byteSize front, t.enclosed⟩ := by
  rw [← slice_of_append h, Forest.byteSize_enclosed, ← Nat.add_assoc, ← Nat.add_assoc]
  rfl

theorem slices_cons {g : Group} {gs : List Group} {part : Fragment} {parts : List Fragment}
    (hg : f.slice g.span = .ok part) (hgs : f.slices gs = .ok parts) :
    f.slices (g :: gs) = .ok (part :: parts) := by
  rw [slices] at *
  rw [List.mapM_cons, hg, hgs]
  rfl

theorem slices_append {gs hs : List Group} {parts parts' : List Fragment}
    (hgs : f.slices gs = .ok parts) (hhs : f.slices hs = .ok parts') :
    f.slices (gs ++ hs) = .ok (parts ++ parts') := by
  rw [slices] at *
  rw [List.mapM_append, hgs, hhs]
  rfl

theorem slices_roots {t : Forest} (h : f.chars = front ++ (t.chars ++ rest)) :
    f.slices (t.roots (f.start + Text.byteSize front))
      =
    .ok (t.fragments (f.start + Text.byteSize front)) := by
  induction t generalizing front with
  | nil => rfl
  | plain c hc t ih =>
    have hnext : f.chars = (front ++ [c]) ++ (t.chars ++ rest) := by simp [h, Forest.chars]
    simpa [Forest.roots, Forest.fragments, Nat.add_assoc] using ih hnext
  | group inside t _ ih =>
    have hgroup : f.chars = front ++ (inside.enclosed ++ (t.chars ++ rest)) := by
      simp [h, Forest.chars, Forest.enclosed]
    have hnext : f.chars = (front ++ inside.enclosed) ++ (t.chars ++ rest) := by simp [hgroup]
    rw [Forest.roots, Forest.fragments]
    apply slices_cons
    . exact slice_of_enclosed hgroup
    . simpa [Nat.add_assoc] using ih hnext

end Fragment

theorem Text.exists_first_solid {cs : List Char} (h : ¬ Text.allBlank cs) :
    ∃ gap c rest, cs = gap ++ c :: rest ∧ (∀ d ∈ gap, Text.isBlank d) ∧ ¬ Text.isBlank c := by
  induction cs with
  | nil => exact absurd rfl h
  | cons c cs ih =>
    by_cases hc : Text.isBlank c
    . have hcs : ¬ Text.allBlank cs := by simpa [Text.allBlank, hc] using h
      obtain ⟨gap, d, rest, rfl, hgap, hd⟩ := ih hcs
      refine ⟨c :: gap, d, rest, rfl, ?_, hd⟩
      rw [List.forall_mem_cons]
      exact ⟨hc, hgap⟩
    . exact ⟨[], c, cs, rfl, by simp, hc⟩

namespace Forest

/--
The roots of a forest, where the first one stands for its own roots if it is a conjunction.
-/
def unwrapped (offset : Nat) : Forest → List Fragment
  | nil => []
  | plain c _ rest => rest.unwrapped (offset + c.utf8Size)
  | group inside rest =>
    let behind := rest.fragments (offset + 1 + Text.byteSize inside.chars + 1)
    if Text.isConjunction inside.enclosed then
      inside.fragments (offset + 1) ++ behind
    else
      ⟨offset, inside.enclosed⟩ :: behind

/--
The name that the group of a forest starts with, which is empty if there is none.
-/
def head (t : Forest) : List Char :=
  (Text.trimStart t.chars).takeWhile Text.isAtom

/--
The conjunctions are `()` and `(and ...)`.
-/
theorem isConjunction_enclosed (t : Forest) :
    Text.isConjunction t.enclosed
      ↔
    Text.allBlank t.chars ∨ Text.sameLetters t.head "and".toList := by
  by_cases hblank : Text.allBlank t.chars
  . have htrim : Text.trimStart (t.chars ++ [')']) = [')'] := by
      rw [Text.trimStart, List.dropWhile_append_of_pos (List.all_eq_true.mp hblank)]
      rfl
    simp [Text.isConjunction, Text.leadingName?, enclosed, htrim, hblank, Text.isAtom]
  . obtain ⟨gap, c, rest, hchars, hgap, hc⟩ := Text.exists_first_solid hblank
    have htrim : ∀ cs, Text.trimStart (t.chars ++ cs) = c :: rest ++ cs := by
      intro cs
      rw [Text.trimStart, hchars, List.append_assoc, List.dropWhile_append_of_pos hgap,
        List.cons_append, List.dropWhile_cons_of_neg hc]
    have hname : (c :: rest ++ [')']).takeWhile Text.isAtom = t.head := by
      have htrim' := htrim []
      rw [List.append_nil, List.append_nil] at htrim'
      rw [head, htrim', List.takeWhile_append]
      split
      next hall =>
        rw [List.takeWhile_cons_of_neg (by decide), List.append_nil,
          (List.takeWhile_prefix _).eq_of_length hall]
      next => rfl
    have hclosing : c ≠ ')' := by
      rintro rfl
      have hplain : Text.IsPlain gap := by
        intro d hd
        constructor
        . rintro rfl
          exact absurd (hgap _ hd) (by decide)
        . rintro rfl
          exact absurd (hgap _ hd) (by decide)
      exact t.chars_ne_closing hplain rest hchars
    simp only [Text.isConjunction, Text.leadingName?, enclosed, htrim, hname, hblank]
    cases hhead : t.head with
    | nil => simpa [Text.sameLetters] using hclosing
    | cons d name => simp

/--
The expressions that a list of expressions stands for.
-/
def conjuncts : List Forest → List Forest
  | [] => []
  | t :: ts => if Text.isConjunction t.enclosed then t.trees ++ ts else t :: ts

theorem unwrapped_map_chars (offset : Nat) (t : Forest) :
    (t.unwrapped offset).map Fragment.chars = (conjuncts t.trees).map enclosed := by
  induction t generalizing offset with
  | nil => rfl
  | plain c hc rest ih => exact ih _
  | group inside rest =>
    rw [unwrapped, trees, conjuncts]
    split
    . simp [fragments_map_chars]
    . simp [fragments_map_chars]

end Forest

namespace Fragment

variable {f : Fragment} {front rest : List Char} {t : Forest}

theorem expressions_groups (h : f.chars = front ++ (t.chars ++ rest)) :
    f.expressions (t.groups (f.start + Text.byteSize front))
      =
    .ok (t.unwrapped (f.start + Text.byteSize front)) := by
  induction t generalizing front with
  | nil => rfl
  | plain c hc t ih =>
    have hnext : f.chars = (front ++ [c]) ++ (t.chars ++ rest) := by simp [h, Forest.chars]
    simpa [Forest.groups, Forest.unwrapped, Nat.add_assoc] using ih hnext
  | group inside t =>
    have hopening : '('.utf8Size = 1 := by decide
    have hgroup : f.chars = front ++ (inside.enclosed ++ (t.chars ++ rest)) := by
      simp [h, Forest.chars, Forest.enclosed]
    have hinner : f.chars = (front ++ ['(']) ++ (inside.chars ++ ')' :: (t.chars ++ rest)) := by
      simp [h, Forest.chars]
    have houter : f.chars = (front ++ inside.enclosed) ++ (t.chars ++ rest) := by simp [hgroup]
    have hfirst := slice_of_enclosed hgroup
    have hinside : f.slices (inside.roots (f.start + Text.byteSize front + 1))
        = .ok (inside.fragments (f.start + Text.byteSize front + 1)) := by
      simpa [hopening, Nat.add_assoc] using slices_roots hinner
    have hbehind : f.slices
        (t.roots (f.start + Text.byteSize front + 1 + Text.byteSize inside.chars + 1))
        = .ok (t.fragments (f.start + Text.byteSize front + 1 + Text.byteSize inside.chars + 1)) := by
      simpa [Nat.add_assoc] using slices_roots houter
    rw [expressions, Group.sort_of_pairwise (Forest.groups_pairwise _ _), Forest.groups,
      Forest.unwrapped, unwrap]
    rw [Forest.nesting] at hfirst
    rw [hfirst]
    show f.slices (Group.outermost (if Text.isConjunction inside.enclosed then _ else _)) = _
    -- A conjunction leaves its conjuncts and what stands behind it, which do not overlap.
    by_cases hconj : Text.isConjunction inside.enclosed
    . rw [if_pos hconj, if_pos hconj, Group.outermost_append _ _ (by omega)]
      exact slices_append hinside hbehind
    . rw [if_neg hconj, if_neg hconj]
      show f.slices (Group.outermost (Forest.groups _ (.group inside t))) = _
      rw [Group.outermost_groups, Forest.roots]
      exact slices_cons hfirst hbehind

theorem expressions_nesting (h : f.chars = front ++ (t.enclosed ++ rest)) :
    f.expressions (t.nesting (f.start + Text.byteSize front)).groups
      =
    .ok ((Forest.group t .nil).unwrapped (f.start + Text.byteSize front)) := by
  have hgroup : f.chars = front ++ ((Forest.group t .nil).chars ++ rest) := by
    simp [h, Forest.chars, Forest.enclosed]
  rw [← expressions_groups hgroup, Forest.groups_nesting]

end Fragment
end PddlOutline
