import Mathlib.Data.List.TakeWhile
import PddlOutline.Proofs.Expressions
import PddlOutline.Proofs.Nesting.Pairs
import PddlOutline.Reading.Section

/-!
This module contains the groups of parentheses as the nodes of a tree, whose children are the groups
directly inside of them. The expressions of a section are children of the group that was scanned,
though the reader knows no tree: it goes through a list of pairs.
-/

namespace PddlOutline

/--
A group of parentheses with what is inside of it.
-/
structure Tree where
  opening : Nat
  inside : Forest

namespace Forest

/--
The groups of a forest that are in no other group, with what is inside of them.
-/
def located (offset : Nat) : Forest → List Tree
  | nil => []
  | plain c _ rest => rest.located (offset + c.utf8Size)
  | group inside rest =>
    ⟨offset, inside⟩ :: rest.located (offset + 1 + Text.byteSize inside.chars + 1)

end Forest

namespace Tree

def nesting (u : Tree) : Nesting :=
  u.inside.nesting u.opening

def group (u : Tree) : Group :=
  u.nesting.outer

def fragment (u : Tree) : Fragment :=
  ⟨u.opening, u.inside.enclosed⟩

def children (u : Tree) : List Tree :=
  u.inside.located (u.opening + 1)

/--
Whether a group has no meaning but that of its children: there is nothing in it, or it starts with
the word `and`.
-/
def IsWrapper (u : Tree) : Prop :=
  let content := Text.trimStart u.inside.chars
  content = [] ∨ Text.sameLetters (content.takeWhile Text.isAtom) "and".toList

instance (u : Tree) : Decidable u.IsWrapper :=
  inferInstanceAs (Decidable (_ ∨ _))

/--
The expressions that a list of groups stands for, of which only the first may be a wrapper.
-/
def unwrapFirst : List Tree → List Tree
  | [] => []
  | u :: us => if u.IsWrapper then u.children ++ us else u :: us

theorem unwrapFirst_singleton (u : Tree) :
    unwrapFirst [u] = if u.IsWrapper then u.children else [u] := by
  rw [unwrapFirst, List.append_nil]

theorem isWrapper_iff (u : Tree) : u.IsWrapper ↔ Text.isConjunction u.inside.enclosed := by
  have hblank : Text.trimStart u.inside.chars = [] ↔ Text.allBlank u.inside.chars := by
    rw [Text.trimStart, List.dropWhile_eq_nil_iff, Text.allBlank, List.all_eq_true]
  rw [Forest.isConjunction_enclosed, ← hblank]
  rfl

end Tree

namespace Forest

theorem located_map_group (offset : Nat) (t : Forest) :
    (t.located offset).map Tree.group = t.roots offset := by
  induction t generalizing offset with
  | nil => rfl
  | plain c hc rest ih => exact ih _
  | group inside rest _ ih =>
    rw [located, roots, List.map_cons, ih]
    rfl

theorem located_map_fragment (offset : Nat) (t : Forest) :
    (t.located offset).map Tree.fragment = t.fragments offset := by
  induction t generalizing offset with
  | nil => rfl
  | plain c hc rest ih => exact ih _
  | group inside rest _ ih =>
    rw [located, fragments, List.map_cons, ih]
    rfl

theorem unwrapFirst_located (offset : Nat) (t : Forest) :
    (Tree.unwrapFirst (t.located offset)).map Tree.fragment = t.unwrapped offset := by
  induction t generalizing offset with
  | nil => rfl
  | plain c hc rest ih => exact ih _
  | group inside rest =>
    rw [located, Tree.unwrapFirst, unwrapped, ← located_map_fragment, ← located_map_fragment]
    by_cases hwrapper : Tree.IsWrapper ⟨offset, inside⟩
    . rw [if_pos hwrapper, if_pos ((Tree.isWrapper_iff _).mp hwrapper), List.map_append]
      rfl
    . rw [if_neg hwrapper, if_neg (hwrapper ∘ (Tree.isWrapper_iff _).mpr), List.map_cons]
      rfl

theorem roots_eq_filter (offset : Nat) (t : Forest) :
    t.roots offset
      =
    (t.groups offset).filter fun g => ∀ h ∈ t.groups offset, ¬ h.Encloses g := by
  induction t generalizing offset with
  | nil => rfl
  | plain c hc rest ih => exact ih _
  | group inside rest _ ih =>
    have hinside : ∀ g ∈ inside.groups (offset + 1),
        Group.Encloses ⟨offset, offset + 1 + Text.byteSize inside.chars⟩ g := by
      intro g hg
      have := bounds_of_mem_groups hg
      simp only [Group.Encloses]
      omega
    have hapart : ∀ h ∈ inside.groups (offset + 1),
        ∀ g ∈ rest.groups (offset + 1 + Text.byteSize inside.chars + 1), ¬ h.Encloses g := by
      intro h hh g hg
      have := bounds_of_mem_groups hh
      have := bounds_of_mem_groups hg
      simp only [Group.Encloses]
      omega
    have hfirst : ∀ g ∈ rest.groups (offset + 1 + Text.byteSize inside.chars + 1),
        ¬ Group.Encloses ⟨offset, offset + 1 + Text.byteSize inside.chars⟩ g
          ∧ ¬ g.Encloses ⟨offset, offset + 1 + Text.byteSize inside.chars⟩ := by
      intro g hg
      have := bounds_of_mem_groups hg
      simp only [Group.Encloses]
      omega
    rw [groups, List.filter_cons_of_pos, List.filter_append, List.filter_eq_nil_iff.mpr,
      List.nil_append, roots, ih]
    . apply congrArg
      apply List.filter_congr
      intro g hg
      rw [decide_eq_decide]
      simp only [List.forall_mem_cons, List.forall_mem_append]
      exact ⟨fun h => ⟨(hfirst g hg).1, fun k hk => hapart k hk g hg, h⟩, fun h => h.2.2⟩
    . intro g hg
      rw [decide_eq_true_eq]
      exact fun h => h _ List.mem_cons_self (hinside g hg)
    . rw [decide_eq_true_eq]
      simp only [List.forall_mem_cons, List.forall_mem_append]
      refine ⟨fun h => Nat.lt_irrefl _ h.1, ?_, fun g hg => (hfirst g hg).2⟩
      intro g hg h
      exact Nat.lt_asymm h.1 (hinside g hg).1

end Forest

namespace Tree

variable {f : Fragment} {u : Tree}

theorem children_map_group (u : Tree) :
    u.children.map group
      =
    u.nesting.inner.filter fun g => ∀ h ∈ u.nesting.inner, ¬ h.Encloses g := by
  rw [children, Forest.located_map_group, Forest.roots_eq_filter]
  rfl

theorem outermost_inner (u : Tree) : Group.outermost u.nesting.inner = u.children.map group := by
  rw [children, Forest.located_map_group]
  apply Group.outermost_groups

theorem isPart_inside (h : f.IsPart u.fragment) : f.IsPart ⟨u.opening + 1, u.inside.chars⟩ :=
  (Fragment.groupAt_iff_isPart.mpr h).isPart_inside

theorem expressions_groups (h : f.IsPart u.fragment) :
    f.expressions u.nesting.groups = .ok ((unwrapFirst [u]).map fragment) := by
  obtain ⟨front, rest, hchars, hopening⟩ := h
  have hfound := Fragment.expressions_nesting hchars
  rw [← hopening, ← Forest.unwrapFirst_located] at hfound
  exact hfound

theorem expressions_inner (h : f.IsPart u.fragment) :
    f.expressions u.nesting.inner = .ok ((unwrapFirst u.children).map fragment) := by
  obtain ⟨front, rest, hchars, hstart⟩ := isPart_inside h
  have hfound := Fragment.expressions_groups hchars
  rw [← hstart, ← Forest.unwrapFirst_located] at hfound
  exact hfound

theorem slices_children (h : f.IsPart u.fragment) :
    f.slices (u.children.map group) = .ok (u.children.map fragment) := by
  obtain ⟨front, rest, hchars, hstart⟩ := isPart_inside h
  have hfound := Fragment.slices_roots hchars
  rw [← hstart, ← Forest.located_map_group, ← Forest.located_map_fragment] at hfound
  exact hfound

end Tree

/--
The expressions that the section of a keyword stands for, given the tree of its groups.
-/
def Section.meaning (keyword : Keyword) (root : Tree) : List Tree :=
  match keyword.form with
  | .block => Tree.unwrapFirst root.children
  | .value => Tree.unwrapFirst [root]

/--
The expressions of a group are the children of the group in the tree of all groups, or the children
of its first child in place of it.
-/
theorem expressions_of_children {f : Fragment} {start : Nat} {b : Nesting}
    (h : Nesting.first f start = .ok b) :
    ∃ root : Tree, f.IsPart root.fragment ∧ root.nesting = b
      ∧ root.children.map Tree.group
        = (b.inner.filter fun g => ∀ h ∈ b.inner, ¬ h.Encloses g)
      ∧ f.expressions b.groups
        = .ok ((if root.IsWrapper then root.children else [root]).map Tree.fragment)
      ∧ f.expressions b.inner = .ok ((Tree.unwrapFirst root.children).map Tree.fragment)
      ∧ Group.outermost b.inner = root.children.map Tree.group
      ∧ f.slices (Group.outermost b.inner) = .ok (root.children.map Tree.fragment)
      ∧ ∀ keyword,
        Section.expressions ⟨keyword, f, b⟩
          = .ok ((Section.meaning keyword root).map fun u => u.fragment.text)
        ∧ Section.parts ⟨keyword, f, b⟩ = .ok (root.children.map fun u => u.fragment.text) := by
  obtain ⟨t, _, ht, hb⟩ := Nesting.exists_of_first_ok h
  generalize b.outer.opening = opening at ht hb
  subst hb
  let root : Tree := ⟨opening, t⟩
  have hroot : f.IsPart root.fragment := Fragment.groupAt_iff_isPart.mp ht
  have hall := Tree.expressions_groups hroot
  have hinner := Tree.expressions_inner hroot
  have hchildren := Tree.slices_children hroot
  rw [← root.outermost_inner] at hchildren
  refine ⟨root, hroot, rfl, root.children_map_group, ?_, hinner, root.outermost_inner, hchildren,
    ?_⟩
  . rw [← Tree.unwrapFirst_singleton]
    exact hall
  . intro keyword
    constructor
    . show Section.expressions ⟨keyword, f, root.nesting⟩ = _
      cases hform : keyword.form with
      | block => simp [Section.expressions, Section.meaning, hform, hinner]
      | value => simp [Section.expressions, Section.meaning, hform, hall]
    . show Section.parts ⟨keyword, f, root.nesting⟩ = _
      simp [Section.parts, hchildren]

/--
The conjunction that comes second is kept, and so is the one inside of the first.
-/
theorem expressions_of_children_conjunctions :
    let f := Fragment.whole "(:goal (AND (p) (and (q))) (and (r)))".toList
    let b : Nesting := ⟨⟨0, 36⟩, [⟨7, 25⟩, ⟨12, 14⟩, ⟨16, 24⟩, ⟨21, 23⟩, ⟨27, 35⟩, ⟨32, 34⟩]⟩
    Nesting.first f 0 = .ok b
      ∧ Section.expressions ⟨.goal, f, b⟩ = .ok ["(p)", "(and (q))", "(and (r))"]
      ∧ ∃ root : Tree, root.nesting = b ∧ root.children.map Tree.group = [⟨7, 25⟩, ⟨27, 35⟩]
        ∧ Section.expressions ⟨.goal, f, b⟩
          = .ok ((Tree.unwrapFirst root.children).map fun u => u.fragment.text) := by
  intro f b
  have hok : Nesting.first f 0 = .ok b := by
    decide +kernel
  obtain ⟨root, _, hroot, hgroups, _, _, _, _, hsection⟩ := expressions_of_children hok
  refine ⟨hok, by decide +kernel, root, hroot, ?_, (hsection .goal).1⟩
  rw [hgroups]
  decide +kernel

end PddlOutline
