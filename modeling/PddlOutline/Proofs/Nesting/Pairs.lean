import Mathlib.Data.List.Sort
import PddlOutline.Proofs.Nesting.Counts

/-!
This module contains the pairs of parentheses that a scan finds: the pair that opens first and all
pairs inside of it. Two texts with the same parentheses up to where this pair is closed have the
same pairs.
-/

namespace PddlOutline

namespace Fragment

variable {f f' : Fragment} {front rest : List Char} {c : Char} {i j start : Nat}

/--
Whether the first parenthesis at or behind `start` opens, and does so at `opening`.
-/
def FirstOpens (f : Fragment) (start opening : Nat) : Prop :=
  start ≤ opening ∧ f.HasAt opening '('
    ∧ ∀ i, start ≤ i → i < opening → ¬ f.HasAt i '(' ∧ ¬ f.HasAt i ')'

/--
Whether two texts have the same parentheses at the offsets from `first` to `last`.
-/
def SameParens (f f' : Fragment) (first last : Nat) : Prop :=
  ∀ i, first ≤ i → i ≤ last →
    (f.HasAt i '(' ↔ f'.HasAt i '(') ∧ (f.HasAt i ')' ↔ f'.HasAt i ')')

theorem SameParens.mono {first last first' last' : Nat} (h : f.SameParens f' first last)
    (hfirst : first ≤ first') (hlast : last' ≤ last) : f.SameParens f' first' last' :=
  fun i hi hle => h i (Nat.le_trans hfirst hi) (Nat.le_trans hle hlast)

theorem SameParens.count_eq {first last : Nat} (h : f.SameParens f' first last) :
    f.count '(' first last = f'.count '(' first last
      ∧ f.count ')' first last = f'.count ')' first last := by
  have hmem : ∀ i ∈ Finset.Icc first last,
      (f.HasAt i '(' ↔ f'.HasAt i '(') ∧ (f.HasAt i ')' ↔ f'.HasAt i ')') := by
    intro i hi
    rw [Finset.mem_Icc] at hi
    exact h i hi.1 hi.2
  constructor
  . exact congrArg Finset.card (Finset.filter_congr fun i hi => (hmem i hi).1)
  . exact congrArg Finset.card (Finset.filter_congr fun i hi => (hmem i hi).2)

theorem SameParens.closes (h : f.SameParens f' i j) (hcloses : f.Closes i j) : f'.Closes i j := by
  obtain ⟨hlt, heq, hleast⟩ := hcloses
  refine ⟨hlt, ?_, ?_⟩
  . rw [← h.count_eq.1, ← h.count_eq.2, heq]
  . intro last hfirst hlast
    have hsame := h.mono (Nat.le_refl i) (Nat.le_of_lt hlast)
    rw [← hsame.count_eq.1, ← hsame.count_eq.2]
    exact hleast last hfirst hlast

theorem SameParens.firstOpens (h : f.SameParens f' start i) (hopens : f.FirstOpens start i) :
    f'.FirstOpens start i := by
  obtain ⟨hle, hat, hfree⟩ := hopens
  refine ⟨hle, (h i hle (Nat.le_refl i)).1.mp hat, ?_⟩
  intro k hk hlt
  have hsame := h k hk (Nat.le_of_lt hlt)
  rw [← hsame.1, ← hsame.2]
  exact hfree k hk hlt

theorem FirstOpens.unique (hi : f.FirstOpens start i) (hj : f.FirstOpens start j) : i = j := by
  rcases Nat.lt_trichotomy i j with hlt | heq | hlt
  . exact absurd hi.2.1 (hj.2.2 i hi.1 hlt).1
  . exact heq
  . exact absurd hj.2.1 (hi.2.2 j hj.1 hlt).1

theorem FirstOpens.of_same {start' : Nat}
    (hsame : ∀ i c, f.IsPart ⟨i, [c]⟩ → (start ≤ i ↔ start' ≤ i)) (h : f.FirstOpens start i) :
    f.FirstOpens start' i := by
  have hopening : '('.utf8Size = 1 := by decide
  have hclosing : ')'.utf8Size = 1 := by decide
  refine ⟨(hsame i '(' ((hasAt_iff hopening).mp h.2.1)).mp h.1, h.2.1, ?_⟩
  intro k hk hlt
  constructor
  . intro hat
    exact (h.2.2 k ((hsame k '(' ((hasAt_iff hopening).mp hat)).mpr hk) hlt).1 hat
  . intro hat
    exact (h.2.2 k ((hsame k ')' ((hasAt_iff hclosing).mp hat)).mpr hk) hlt).2 hat

theorem not_hasAt_of_gap {gap : List Char} (hgap : Text.IsPlain gap)
    (h : f.chars = front ++ (gap ++ rest)) {k : Nat} (hk : f.start + Text.byteSize front ≤ k)
    (hlt : k < f.start + Text.byteSize front + Text.byteSize gap) :
    ¬ f.HasAt k '(' ∧ ¬ f.HasAt k ')' := by
  have hnot : ∀ c, c.utf8Size = 1 → c = '(' ∨ c = ')' → ¬ f.HasAt k c := by
    intro c hc hparen hat
    rcases ((hasAt_iff hc).mp hat).split_cases h with ⟨as, bs, rfl, rfl⟩ | ⟨as, bs, has, rfl⟩
    . rw [Text.byteSize_append, Text.byteSize_cons] at hk
      omega
    . rcases List.append_eq_append_iff.mp has with ⟨part, rfl, _⟩ | ⟨part, rfl, hpart⟩
      . rw [Text.byteSize_append] at hlt
        omega
      . cases part with
        | nil =>
          rw [List.append_nil] at hlt
          omega
        | cons d part =>
          obtain ⟨rfl, _⟩ := List.cons.inj hpart
          exact hparen.elim (hgap c (by simp)).1 (hgap c (by simp)).2
  exact ⟨hnot '(' (by decide) (.inl rfl), hnot ')' (by decide) (.inr rfl)⟩

theorem hasAt_of_gap {gap : List Char} (hc : c.utf8Size = 1)
    (h : f.chars = front ++ (gap ++ c :: rest)) :
    f.HasAt (f.start + Text.byteSize front + Text.byteSize gap) c := by
  rw [hasAt_iff hc]
  exact ⟨front ++ gap, rest, by simp [h], by rw [Text.byteSize_append, Nat.add_assoc]⟩

theorem firstOpens_of_gap {gap inside : List Char} (hgap : Text.IsPlain gap)
    (h : f.chars = front ++ (gap ++ '(' :: inside)) :
    f.FirstOpens (f.start + Text.byteSize front)
      (f.start + Text.byteSize front + Text.byteSize gap) :=
  ⟨Nat.le_add_right _ _, hasAt_of_gap (by decide) h, fun _ hk hlt => not_hasAt_of_gap hgap h hk hlt⟩

theorem FirstOpens.exists_gap (h : f.FirstOpens (f.start + Text.byteSize front) i)
    (hchars : f.chars = front ++ rest) :
    ∃ gap inside, rest = gap ++ '(' :: inside ∧ Text.IsPlain gap
      ∧ i = f.start + Text.byteSize front + Text.byteSize gap := by
  have hopening : '('.utf8Size = 1 := by decide
  have hclosing : ')'.utf8Size = 1 := by decide
  obtain ⟨hle, hat, hfree⟩ := h
  rcases ((hasAt_iff hopening).mp hat).split_cases hchars with ⟨as, bs, rfl, rfl⟩
    | ⟨gap, inside, rfl, rfl⟩
  . rw [Text.byteSize_append, Text.byteSize_cons] at hle
    omega
  . refine ⟨gap, inside, rfl, ?_, rfl⟩
    intro c hc
    obtain ⟨as, bs, rfl⟩ := List.append_of_mem hc
    have hsize := c.utf8Size_pos
    have hplace : f.IsPart ⟨f.start + Text.byteSize front + Text.byteSize as, [c]⟩ := by
      refine ⟨front ++ as, bs ++ '(' :: inside, by simp [hchars], ?_⟩
      rw [Text.byteSize_append, ← Nat.add_assoc]
    have hnot := hfree (f.start + Text.byteSize front + Text.byteSize as) (by omega) (by
      rw [Text.byteSize_append, Text.byteSize_cons]
      omega)
    constructor
    . rintro rfl
      exact hnot.1 ((hasAt_iff hopening).mpr hplace)
    . rintro rfl
      exact hnot.2 ((hasAt_iff hclosing).mpr hplace)

end Fragment

/-! Where a scan starts. -/

namespace Nesting

variable {f : Fragment} {i start : Nat} {t : Forest} {b : Nesting}

theorem exists_isPart_of_mem_marks {offset : Nat} {cs : List Char} {m : Mark}
    (h : m ∈ Fragment.marks.go offset cs) :
    ∃ c, (Fragment.mk offset cs).IsPart ⟨m.offset, [c]⟩ := by
  induction cs generalizing offset with
  | nil => cases h
  | cons c cs ih =>
    have hlater : m ∈ Fragment.marks.go (offset + c.utf8Size) cs →
        ∃ d, (Fragment.mk offset (c :: cs)).IsPart ⟨m.offset, [d]⟩ := by
      intro hm
      obtain ⟨d, hd⟩ := ih hm
      have hrest : (Fragment.mk offset (c :: cs)).IsPart ⟨offset + c.utf8Size, cs⟩ :=
        ⟨[c], [], by simp, rfl⟩
      exact ⟨d, hrest.trans hd⟩
    have hhere : ∀ side, m = ⟨offset, side⟩ →
        ∃ d, (Fragment.mk offset (c :: cs)).IsPart ⟨m.offset, [d]⟩ := by
      rintro side rfl
      exact ⟨c, [], cs, rfl, rfl⟩
    rw [Fragment.marks.go] at h
    split at h
    . exact (List.mem_cons.mp h).elim (hhere _) hlater
    . split at h
      . exact (List.mem_cons.mp h).elim (hhere _) hlater
      . exact hlater h

/--
A scan that starts inside of a character or behind the text is one that starts at a boundary.
-/
theorem exists_boundary (f : Fragment) (start : Nat) : ∃ front rest, f.chars = front ++ rest
    ∧ (∀ i c, f.IsPart ⟨i, [c]⟩ → (start ≤ i ↔ f.start + Text.byteSize front ≤ i))
    ∧ first f start = first f (f.start + Text.byteSize front) := by
  obtain ⟨rest, hchars, hrest⟩ := Text.exists_behind (start - f.start) f.chars
  have hsame : ∀ i c, f.IsPart ⟨i, [c]⟩ → (start ≤ i
      ↔ f.start + Text.byteSize (Text.before (start - f.start) f.chars) ≤ i) := by
    intro i c h
    rcases h.split_cases hchars with ⟨as, bs, has, rfl⟩ | ⟨as, bs, rfl, rfl⟩
    . have := Text.byteSize_lt_of_before has
      have := c.utf8Size_pos
      rw [has, Text.byteSize_append, Text.byteSize_cons]
      omega
    . have := hrest.resolve_left (by simp)
      omega
  refine ⟨_, rest, hchars, hsame, ?_⟩
  rw [first, first]
  congr 1
  apply List.filter_congr
  intro m hm
  obtain ⟨c, hc⟩ := exists_isPart_of_mem_marks hm
  rw [decide_eq_decide]
  exact hsame m.offset c hc

theorem first_of_firstOpens (h : f.FirstOpens start i) (ht : f.GroupAt i t) :
    first f start = .ok (t.nesting i) := by
  obtain ⟨front, rest, hchars, hsame, hfirst⟩ := exists_boundary f start
  obtain ⟨gap, inside, rfl, hgap, rfl⟩ := (h.of_same hsame).exists_gap hchars
  obtain ⟨front', rest', hgroup, hsize⟩ := ht
  rw [Nat.add_assoc, ← Text.byteSize_append, Nat.add_left_cancel_iff] at hsize
  rw [hchars, ← List.append_assoc] at hgroup
  obtain ⟨rfl, hinside⟩ := Fragment.append_inj_of_byteSize hgroup hsize
  rw [hinside] at hchars
  rw [hfirst, first_of_enclosed hgap hchars]

theorem exists_of_first_ok (h : first f start = .ok b) :
    ∃ t, f.FirstOpens start b.outer.opening ∧ f.GroupAt b.outer.opening t
      ∧ b = t.nesting b.outer.opening := by
  obtain ⟨front, rest, hchars, hsame, hfirst⟩ := exists_boundary f start
  obtain ⟨gap, rest', rfl, hgap, hnone | ⟨_, _, hunopened⟩ | ⟨_, _, hunclosed⟩
    | ⟨t, after, rfl, hok⟩⟩ := first_cases hchars
  . rw [hfirst, hnone] at h
    cases h
  . rw [hfirst, hunopened] at h
    cases h
  . rw [hfirst, hunclosed] at h
    cases h
  . rw [hfirst, hok] at h
    cases h
    have hopening : f.chars = front ++ (gap ++ '(' :: (t.chars ++ ')' :: after)) := by
      simp [hchars, Forest.enclosed]
    have hopens := Fragment.firstOpens_of_gap hgap hopening
    refine ⟨t, hopens.of_same fun i c hc => (hsame i c hc).symm, ?_, rfl⟩
    refine ⟨front ++ gap, after, by simp [hchars], ?_⟩
    rw [Text.byteSize_append, ← Nat.add_assoc]
    rfl

end Nesting

/-! The pairs in a group. -/

namespace Fragment

variable {f : Fragment} {i k : Nat} {t : Forest} {g h : Group}

theorem GroupAt.bounds (hg : g ∈ (t.nesting i).groups) :
    i ≤ g.opening ∧ g.opening < g.closing ∧ g.closing ≤ i + 1 + Text.byteSize t.chars := by
  rw [Forest.groups_nesting] at hg
  have hbounds := Forest.bounds_of_mem_groups hg
  rw [Forest.chars_group_nil, Forest.byteSize_enclosed] at hbounds
  omega

theorem GroupAt.hasAt_place (ht : f.GroupAt i t) (hg : g ∈ (t.nesting i).groups) (side : Side) :
    f.HasAt (g.place side) side.char := by
  obtain ⟨u, hu, hg⟩ := ht.isPart_of_mem_groups hg
  have hopening : '('.utf8Size = 1 := by decide
  cases side with
  | opening =>
    rw [Side.char, hasAt_iff hopening]
    exact hu.trans ⟨[], u.chars ++ [')'], rfl, rfl⟩
  | closing =>
    rw [Side.char, hasAt_iff (by decide)]
    refine hu.trans ⟨'(' :: u.chars, [], rfl, ?_⟩
    rw [hg, Text.byteSize_cons, hopening, ← Nat.add_assoc]
    rfl

theorem GroupAt.exists_of_hasAt (ht : f.GroupAt i t) (side : Side) (hat : f.HasAt k side.char)
    (hle : i ≤ k) (hlt : k ≤ i + 1 + Text.byteSize t.chars) :
    ∃ g ∈ (t.nesting i).groups, g.place side = k := by
  obtain ⟨front, rest, hchars, rfl⟩ := ht
  have hsize : side.char.utf8Size = 1 := by
    cases side <;> decide
  rw [Forest.groups_nesting]
  rcases ((hasAt_iff hsize).mp hat).split_cases hchars with ⟨as, bs, rfl, rfl⟩
    | ⟨as, bs, hrest, rfl⟩
  . rw [Text.byteSize_append, Text.byteSize_cons] at hle
    omega
  . rcases Text.append_cons_cases hrest with ⟨part, hpart, _⟩ | ⟨part, rfl, _⟩
    . rw [← Forest.chars_group_nil] at hpart
      exact Forest.exists_mem_groups_of_paren hpart _
    . rw [Text.byteSize_append, Forest.byteSize_enclosed] at hlt
      omega

theorem GroupAt.closes_of_mem (ht : f.GroupAt i t) (hg : g ∈ (t.nesting i).groups) :
    f.Closes g.opening g.closing := by
  obtain ⟨u, hu, hg⟩ := ht.isPart_of_mem_groups hg
  have hcloses := closes_of_groupAt (groupAt_iff_isPart.mpr hu)
  rw [hg]
  exact hcloses

end Fragment

namespace Nesting

variable {f f' : Fragment} {i start : Nat} {t : Forest} {b : Nesting} {g g' : Group}

/--
What a scan from `start` should find: the pair of parentheses that opens first, and all pairs inside
of it, in the order in which they open.
-/
structure IsPairing (b : Nesting) (f : Fragment) (start : Nat) : Prop where
  opens : f.FirstOpens start b.outer.opening
  closes : f.Closes b.outer.opening b.outer.closing
  head : b.groups.head? = some b.outer
  sorted : b.groups.Pairwise (·.opening < ·.opening)
  mem_iff (g : Group) : g ∈ b.groups ↔ b.outer.opening ≤ g.opening ∧ g.opening ≤ b.outer.closing
    ∧ f.HasAt g.opening '(' ∧ f.Closes g.opening g.closing

theorem isPairing_nesting (h : f.FirstOpens start i) (ht : f.GroupAt i t) :
    (t.nesting i).IsPairing f start where
  opens := h
  closes := Fragment.closes_of_groupAt ht
  head := rfl
  sorted := by
    rw [Forest.groups_nesting]
    apply Forest.groups_pairwise
  mem_iff g := by
    constructor
    . intro hg
      have hbounds := Fragment.GroupAt.bounds hg
      refine ⟨hbounds.1, ?_, ht.hasAt_place hg .opening, ht.closes_of_mem hg⟩
      exact Nat.le_of_lt (Nat.lt_of_lt_of_le hbounds.2.1 hbounds.2.2)
    . rintro ⟨hle, hlt, hat, hcloses⟩
      obtain ⟨h, hh, hplace⟩ := ht.exists_of_hasAt .opening hat hle hlt
      have hsame : h.opening = g.opening := hplace
      have hclosing := ht.closes_of_mem hh
      rw [hsame] at hclosing
      rw [← Group.ext hsame (hclosing.unique hcloses)]
      exact hh

theorem eq_of_groups_eq {b' : Nesting} (h : b.groups = b'.groups) : b = b' := by
  cases b
  cases b'
  rw [groups, groups, List.cons.injEq] at h
  rw [Nesting.mk.injEq]
  exact h

theorem eq_of_sorted {gs gs' : List Group} (h : gs.Pairwise (·.opening < ·.opening))
    (h' : gs'.Pairwise (·.opening < ·.opening)) (hmem : ∀ g, g ∈ gs ↔ g ∈ gs') : gs = gs' := by
  have : Std.Irrefl fun g h : Group => g.opening < h.opening := ⟨fun g => Nat.lt_irrefl _⟩
  have : Std.Antisymm fun g h : Group => g.opening < h.opening :=
    ⟨fun g h hlt hgt => absurd hgt (Nat.lt_asymm hlt)⟩
  exact h.eq_of_mem_iff h' hmem

theorem IsPairing.unique {b' : Nesting} (h : b.IsPairing f start) (h' : b'.IsPairing f start) :
    b = b' := by
  have hopening := h.opens.unique h'.opens
  have hcloses := h'.closes
  rw [← hopening] at hcloses
  have houter : b.outer = b'.outer := Group.ext hopening (h.closes.unique hcloses)
  have hmem : ∀ g, g ∈ b.groups ↔ g ∈ b'.groups := by
    intro g
    rw [h.mem_iff, h'.mem_iff, houter]
  exact eq_of_groups_eq (eq_of_sorted h.sorted h'.sorted hmem)

theorem first_eq_ok_iff : first f start = .ok b ↔ b.IsPairing f start := by
  constructor
  . intro h
    obtain ⟨t, hopens, ht, hb⟩ := exists_of_first_ok h
    rw [hb]
    exact isPairing_nesting hopens ht
  . intro h
    obtain ⟨t, ht⟩ := Fragment.exists_groupAt_of_closes h.opens.2.1 h.closes
    rw [h.unique (isPairing_nesting h.opens ht)]
    exact first_of_firstOpens h.opens ht

theorem bounds_of_first_ok (h : first f start = .ok b) (hg : g ∈ b.groups) :
    b.outer.opening ≤ g.opening ∧ g.opening < g.closing ∧ g.closing ≤ b.outer.closing := by
  obtain ⟨t, _, _, hb⟩ := exists_of_first_ok h
  rw [hb] at hg ⊢
  exact Fragment.GroupAt.bounds hg

theorem apart_of_first_ok (h : first f start = .ok b) (hg : g ∈ b.groups) (hg' : g' ∈ b.groups)
    (hne : g ≠ g') : g.Apart g' := by
  obtain ⟨t, _, _, hb⟩ := exists_of_first_ok h
  rw [hb, Forest.groups_nesting] at hg hg'
  have hapart : ((Forest.group t .nil).groups b.outer.opening).Pairwise Group.Apart := by
    apply (Forest.groups_laminar _ _).imp
    rintro g g' (hprecedes | hencloses)
    . exact .inl hprecedes
    . exact .inr (.inr (.inl hencloses))
  exact hapart.forall hg hg' hne

theorem exists_mem_groups_of_hasAt (h : first f start = .ok b) (hle : b.outer.opening ≤ i)
    (hlt : i ≤ b.outer.closing) (side : Side) (hat : f.HasAt i side.char) :
    ∃ g ∈ b.groups, g.place side = i := by
  obtain ⟨t, _, ht, hb⟩ := exists_of_first_ok h
  rw [hb] at hlt
  obtain ⟨g, hg, hplace⟩ := ht.exists_of_hasAt side hat hle hlt
  rw [← hb] at hg
  exact ⟨g, hg, hplace⟩

theorem existsUnique_of_hasAt (h : first f start = .ok b) (hle : b.outer.opening ≤ i)
    (hlt : i ≤ b.outer.closing) (side : Side) (hat : f.HasAt i side.char) :
    ∃! g, g ∈ b.groups ∧ (g.opening = i ∨ g.closing = i) := by
  obtain ⟨g, hg, hplace⟩ := exists_mem_groups_of_hasAt h hle hlt side hat
  refine ⟨g, ⟨hg, ?_⟩, ?_⟩
  . cases side with
    | opening => exact .inl hplace
    | closing => exact .inr hplace
  . rintro g' ⟨hg', hplace'⟩
    by_contra hne
    have := bounds_of_first_ok h hg
    have := bounds_of_first_ok h hg'
    have hapart := apart_of_first_ok h hg' hg hne
    simp only [Group.Apart, Group.Precedes, Group.Encloses] at hapart
    cases side with
    | opening =>
      have : g.opening = i := hplace
      omega
    | closing =>
      have : g.closing = i := hplace
      omega

/--
What opens in a pair is closed in this pair.
-/
theorem exists_mem_groups_within (h : first f start = .ok b) (hg : g ∈ b.groups)
    (hle : g.opening ≤ i) (hlt : i ≤ g.closing) (hat : f.HasAt i '(') :
    ∃ g' ∈ b.groups, g'.opening = i ∧ g'.closing ≤ g.closing := by
  have hbounds := bounds_of_first_ok h hg
  obtain ⟨g', hg', hopening⟩ := exists_mem_groups_of_hasAt h (Nat.le_trans hbounds.1 hle)
    (Nat.le_trans hlt hbounds.2.2) .opening hat
  have hopening' : g'.opening = i := hopening
  refine ⟨g', hg', hopening', ?_⟩
  by_cases hsame : g = g'
  . rw [hsame]
  . have := bounds_of_first_ok h hg'
    have hapart := apart_of_first_ok h hg hg' hsame
    simp only [Group.Apart, Group.Precedes, Group.Encloses] at hapart
    omega

/--
A scan that first comes to a pair finds this pair and what is in it, in any text that has the same
parentheses in the pair.
-/
theorem exists_first_of_mem_groups {start' : Nat} (h : first f start = .ok b) (hg : g ∈ b.groups)
    (hsame : f.SameParens f' g.opening g.closing) (hopens : f'.FirstOpens start' g.opening) :
    ∃ b', first f' start' = .ok b' ∧ b'.outer = g
      ∧ b'.groups = b.groups.filter fun h => g.opening ≤ h.opening ∧ h.closing ≤ g.closing := by
  have hpairing := first_eq_ok_iff.mp h
  have hcloses := hsame.closes ((hpairing.mem_iff g).mp hg).2.2.2
  obtain ⟨t, ht⟩ := Fragment.exists_groupAt_of_closes hopens.2.1 hcloses
  have hpairing' := isPairing_nesting hopens ht
  have houter : (t.nesting g.opening).outer = g := Group.ext rfl (hpairing'.closes.unique hcloses)
  refine ⟨t.nesting g.opening, first_of_firstOpens hopens ht, houter, ?_⟩
  apply eq_of_sorted hpairing'.sorted (hpairing.sorted.filter _)
  intro k
  rw [hpairing'.mem_iff, houter, List.mem_filter, decide_eq_true_eq]
  constructor
  . -- The pair that opens at the same place in the one text closes at the same place in the other.
    rintro ⟨hle, hlt, hkat, hkcloses⟩
    obtain ⟨k', hk', hopening, hclosing⟩ :=
      exists_mem_groups_within h hg hle hlt ((hsame k.opening hle hlt).1.mpr hkat)
    have hk'closes := ((hpairing.mem_iff k').mp hk').2.2.2
    rw [hopening] at hk'closes
    have hclosing' := ((hsame.mono hle hclosing).closes hk'closes).unique hkcloses
    rw [← Group.ext hopening hclosing']
    exact ⟨hk', hopening ▸ hle, hclosing⟩
  . rintro ⟨hk, hle, hclosing⟩
    obtain ⟨_, _, hkat, hkcloses⟩ := (hpairing.mem_iff k).mp hk
    have hlt := Nat.le_trans (Nat.le_of_lt (bounds_of_first_ok h hk).2.1) hclosing
    exact ⟨hle, hlt, (hsame k.opening hle hlt).1.mp hkat,
      (hsame.mono hle hclosing).closes hkcloses⟩

theorem first_congr (h : first f start = .ok b) (hsame : f.SameParens f' start b.outer.closing) :
    first f' start = .ok b := by
  have hpairing := first_eq_ok_iff.mp h
  have hlast := Nat.le_of_lt hpairing.closes.1
  have hopens := (hsame.mono (Nat.le_refl _) hlast).firstOpens hpairing.opens
  obtain ⟨b', hb', _, hgroups⟩ := exists_first_of_mem_groups h List.mem_cons_self
    (hsame.mono hpairing.opens.1 (Nat.le_refl _)) hopens
  have hall : ∀ g ∈ b.groups, decide (b.outer.opening ≤ g.opening
      ∧ g.closing ≤ b.outer.closing) := by
    intro g hg
    have hbounds := bounds_of_first_ok h hg
    exact decide_eq_true ⟨hbounds.1, hbounds.2.2⟩
  rw [List.filter_eq_self.mpr hall] at hgroups
  rw [hb', eq_of_groups_eq hgroups]

end Nesting

/--
A scan finds the pair of parentheses that opens first and all pairs in it, and nothing else plays a
role for what it finds.
-/
theorem first_finds_pairs (f : Fragment) (start : Nat) :
    ((∃ b, Nesting.first f start = .ok b) ↔
      ∃ opening closing, f.FirstOpens start opening ∧ f.Closes opening closing)
    ∧ (∀ b, Nesting.first f start = .ok b ↔ b.IsPairing f start)
    ∧ ∀ b, Nesting.first f start = .ok b →
      (∀ i, b.outer.opening ≤ i → i ≤ b.outer.closing → f.HasAt i '(' ∨ f.HasAt i ')' →
        ∃! g, g ∈ b.groups ∧ (g.opening = i ∨ g.closing = i))
      ∧ (∀ g ∈ b.groups, ∀ h ∈ b.groups, g ≠ h → g.Apart h)
      ∧ ∀ f', f.SameParens f' start b.outer.closing → Nesting.first f' start = .ok b := by
  refine ⟨⟨?_, ?_⟩, fun b => Nesting.first_eq_ok_iff, ?_⟩
  . rintro ⟨b, h⟩
    have hpairing := Nesting.first_eq_ok_iff.mp h
    exact ⟨_, _, hpairing.opens, hpairing.closes⟩
  . rintro ⟨opening, closing, hopens, hcloses⟩
    obtain ⟨t, ht⟩ := Fragment.exists_groupAt_of_closes hopens.2.1 hcloses
    exact ⟨_, Nesting.first_of_firstOpens hopens ht⟩
  . intro b h
    refine ⟨?_, fun g hg g' hg' => Nesting.apart_of_first_ok h hg hg',
      fun f' => Nesting.first_congr h⟩
    rintro i hle hlt (hat | hat)
    . exact Nesting.existsUnique_of_hasAt h hle hlt .opening hat
    . exact Nesting.existsUnique_of_hasAt h hle hlt .closing hat

/--
The scan starts inside of a character.
-/
theorem first_finds_pairs_accented :
    let f := Fragment.whole "é (é (ü)) )".toList
    let f' := Fragment.whole "(: (ab (cd)) ((".toList
    let b : Nesting := ⟨⟨3, 11⟩, [⟨7, 10⟩]⟩
    Nesting.first f 1 = .ok b
      ∧ (∃! g, g ∈ b.groups ∧ (g.opening = 10 ∨ g.closing = 10))
      ∧ Group.Apart ⟨3, 11⟩ ⟨7, 10⟩
      ∧ Nesting.first f' 1 = .ok b := by
  intro f f' b
  have hok : Nesting.first f 1 = .ok b := by
    decide +kernel
  have hsame : ∀ i ∈ List.range 12, 1 ≤ i →
      (f.HasAt i '(' ↔ f'.HasAt i '(') ∧ (f.HasAt i ')' ↔ f'.HasAt i ')') := by
    decide +kernel
  obtain ⟨_, _, hfound⟩ := first_finds_pairs f 1
  obtain ⟨hunique, hapart, hcongr⟩ := hfound b hok
  refine ⟨hok, ?_, ?_, ?_⟩
  . exact hunique 10 (by decide) (by decide) (.inr (by decide +kernel))
  . exact hapart ⟨3, 11⟩ (by decide) ⟨7, 10⟩ (by decide) (by decide)
  . exact hcongr f' fun i hi hle => hsame i (List.mem_range.mpr (Nat.lt_succ_of_le hle)) hi

end PddlOutline
