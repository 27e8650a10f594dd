import Mathlib.Tactic.Tauto
import PddlOutline.Nesting

/-!
This module contains forests, the texts in which all parentheses match. They are the other side of
everything that is said about scans for parentheses: a scan that succeeds has gone through a forest
in parentheses (see `PddlOutline.Proofs.Nesting.Matching`).
-/

namespace PddlOutline

def Text.IsPlain (cs : List Char) : Prop :=
  ∀ c ∈ cs, c ≠ '(' ∧ c ≠ ')'

instance (cs : List Char) : Decidable (Text.IsPlain cs) :=
  inferInstanceAs (Decidable (∀ c ∈ cs, c ≠ '(' ∧ c ≠ ')'))

theorem Text.IsPlain.tail {c : Char} {cs : List Char} (h : IsPlain (c :: cs)) : IsPlain cs :=
  fun d hd => h d (List.mem_cons_of_mem c hd)

theorem Text.IsPlain.append {as bs : List Char} (has : IsPlain as) (hbs : IsPlain bs) :
    IsPlain (as ++ bs) := by
  intro c hc
  cases List.mem_append.mp hc with
  | inl hc => exact has c hc
  | inr hc => exact hbs c hc

theorem Text.exists_gap (cs : List Char) : ∃ gap rest, cs = gap ++ rest ∧ IsPlain gap
    ∧ ∀ c ∈ rest.head?, c = '(' ∨ c = ')' := by
  induction cs with
  | nil => exact ⟨[], [], rfl, by simp [IsPlain], by simp⟩
  | cons c cs ih =>
    by_cases hc : c = '(' ∨ c = ')'
    . exact ⟨[], c :: cs, rfl, by simp [IsPlain], by simpa using hc⟩
    . obtain ⟨gap, rest, rfl, hgap, hrest⟩ := ih
      refine ⟨c :: gap, rest, rfl, ?_, hrest⟩
      intro d hd
      cases List.mem_cons.mp hd with
      | inl hd => exact hd ▸ not_or.mp hc
      | inr hd => exact hgap d hd

def Side.char : Side → Char
  | .opening => '('
  | .closing => ')'

attribute [ext] Group

namespace Group

/--
Where the group has its parenthesis of a side.
-/
def place (g : Group) : Side → Nat
  | .opening => g.opening
  | .closing => g.closing

def Precedes (g h : Group) : Prop :=
  g.closing < h.opening

def Encloses (g h : Group) : Prop :=
  g.opening < h.opening ∧ h.closing < g.closing

instance (g h : Group) : Decidable (g.Encloses h) :=
  inferInstanceAs (Decidable (_ ∧ _))

/--
Whether two groups are disjoint or one of them is strictly inside the other.
-/
def Apart (g h : Group) : Prop :=
  g.Precedes h ∨ h.Precedes g ∨ g.Encloses h ∨ h.Encloses g

instance : Std.Symm Apart where
  symm g h hapart := by
    unfold Apart at hapart ⊢
    tauto

end Group

/--
A text in which all parentheses match, read from its first character on.
-/
inductive Forest
  | nil
  | plain (c : Char) (isPlain : c ≠ '(' ∧ c ≠ ')') (rest : Forest)
  | group (inside rest : Forest)

namespace Forest

def chars : Forest → List Char
  | nil => []
  | plain c _ rest => c :: rest.chars
  | group inside rest => '(' :: (inside.chars ++ ')' :: rest.chars)

/--
The text of a forest in parentheses, which is one balanced group.
-/
def enclosed (t : Forest) : List Char :=
  '(' :: (t.chars ++ [')'])

/--
What is in the groups of a forest that are in no other group.
-/
def trees : Forest → List Forest
  | nil => []
  | plain _ _ rest => rest.trees
  | group inside rest => inside :: rest.trees

/--
All groups of a forest that starts at `offset`, sorted by their opening parenthesis.
-/
def groups (offset : Nat) : Forest → List Group
  | nil => []
  | plain c _ rest => rest.groups (offset + c.utf8Size)
  | group inside rest =>
    ⟨offset, offset + 1 + Text.byteSize inside.chars⟩
      :: (inside.groups (offset + 1)
        ++ rest.groups (offset + 1 + Text.byteSize inside.chars + 1))

/--
The groups of a forest that are in no other group.
-/
def roots (offset : Nat) : Forest → List Group
  | nil => []
  | plain c _ rest => rest.roots (offset + c.utf8Size)
  | group inside rest =>
    ⟨offset, offset + 1 + Text.byteSize inside.chars⟩
      :: rest.roots (offset + 1 + Text.byteSize inside.chars + 1)

def fragments (offset : Nat) : Forest → List Fragment
  | nil => []
  | plain c _ rest => rest.fragments (offset + c.utf8Size)
  | group inside rest =>
    ⟨offset, inside.enclosed⟩
      :: rest.fragments (offset + 1 + Text.byteSize inside.chars + 1)

/--
What a scan makes of a forest in parentheses, of which the first is at `opening`.
-/
def nesting (opening : Nat) (t : Forest) : Nesting :=
  ⟨⟨opening, opening + 1 + Text.byteSize t.chars⟩, t.groups (opening + 1)⟩

theorem chars_group_nil (t : Forest) : (group t nil).chars = t.enclosed := rfl

theorem groups_nesting (opening : Nat) (t : Forest) :
    (t.nesting opening).groups = (group t nil).groups opening := by
  simp [Nesting.groups, nesting, groups]

def prepend : (cs : List Char) → Text.IsPlain cs → Forest → Forest
  | [], _, t => t
  | c :: cs, h, t =>
    plain c (h c List.mem_cons_self) (prepend cs h.tail t)

@[simp]
theorem chars_prepend (cs : List Char) (h : Text.IsPlain cs) (t : Forest) :
    (prepend cs h t).chars = cs ++ t.chars := by
  induction cs with
  | nil => rfl
  | cons c cs ih =>
    rw [prepend, chars, ih, List.cons_append]

@[simp]
theorem trees_prepend (cs : List Char) (h : Text.IsPlain cs) (t : Forest) :
    (prepend cs h t).trees = t.trees := by
  induction cs with
  | nil => rfl
  | cons c cs ih => exact ih _

theorem exists_prepend {t : Forest} {as bs after : List Char} (has : Text.IsPlain as)
    (h : t.chars ++ ')' :: after = as ++ bs) :
    ∃ u : Forest, t = prepend as has u ∧ bs = u.chars ++ ')' :: after := by
  induction as generalizing t with
  | nil => exact ⟨t, rfl, h.symm⟩
  | cons a as ih =>
    have ha := has a List.mem_cons_self
    cases t with
    | nil => exact absurd (List.cons.inj h).1.symm ha.2
    | plain c hc t =>
      obtain ⟨rfl, htail⟩ := List.cons.inj h
      obtain ⟨u, rfl, hbs⟩ := ih has.tail htail
      exact ⟨u, rfl, hbs⟩
    | group inside t => exact absurd (List.cons.inj h).1.symm ha.1

@[simp]
theorem byteSize_enclosed (t : Forest) :
    Text.byteSize t.enclosed = 1 + Text.byteSize t.chars + 1 := by
  have hopening : '('.utf8Size = 1 := by decide
  have hclosing : ')'.utf8Size = 1 := by decide
  simp only [enclosed, Text.byteSize_cons, Text.byteSize_append, Text.byteSize_nil, hopening,
    hclosing]
  omega

theorem fragments_map_chars (offset : Nat) (t : Forest) :
    (t.fragments offset).map Fragment.chars = t.trees.map enclosed := by
  induction t generalizing offset with
  | nil => rfl
  | plain c h rest ih => exact ih _
  | group inside rest _ ih => simp [fragments, trees, ih]

theorem bounds_of_mem_groups {t : Forest} {offset : Nat} {g : Group} (h : g ∈ t.groups offset) :
    offset ≤ g.opening ∧ g.opening < g.closing
      ∧ g.closing < offset + Text.byteSize t.chars := by
  have hopening : '('.utf8Size = 1 := by decide
  have hclosing : ')'.utf8Size = 1 := by decide
  induction t generalizing offset with
  | nil => simp [groups] at h
  | plain c hc rest ih =>
    have := ih h
    simp only [chars, Text.byteSize_cons]
    omega
  | group inside rest ihInside ihRest =>
    simp only [chars, Text.byteSize_cons, Text.byteSize_append, hopening, hclosing]
    simp only [groups, List.mem_cons, List.mem_append] at h
    rcases h with rfl | h | h
    . simp only
      omega
    . have := ihInside h
      omega
    . have := ihRest h
      omega

theorem exists_of_mem_groups {t : Forest} {offset : Nat} {g : Group} (h : g ∈ t.groups offset) :
    ∃ (front rest : List Char) (u : Forest), t.chars = front ++ (u.enclosed ++ rest)
      ∧ g = (u.nesting (offset + Text.byteSize front)).outer := by
  have hopening : '('.utf8Size = 1 := by decide
  have hclosing : ')'.utf8Size = 1 := by decide
  induction t generalizing offset with
  | nil => cases h
  | plain c hc t ih =>
    obtain ⟨front, rest, u, hchars, hg⟩ := ih h
    refine ⟨c :: front, rest, u, by simp [chars, hchars], ?_⟩
    rw [hg, Text.byteSize_cons, Nat.add_assoc]
  | group inside t ihInside ih =>
    rw [groups, List.mem_cons, List.mem_append] at h
    rcases h with h | h | h
    . exact ⟨[], t.chars, inside, by simp [chars, enclosed], h⟩
    . obtain ⟨front, rest, u, hchars, hg⟩ := ihInside h
      refine ⟨'(' :: front, rest ++ ')' :: t.chars, u, by simp [chars, hchars], ?_⟩
      rw [hg, Text.byteSize_cons, hopening, Nat.add_assoc]
    . obtain ⟨front, rest, u, hchars, hg⟩ := ih h
      refine ⟨inside.enclosed ++ front, rest, u, by simp [chars, enclosed, hchars], ?_⟩
      rw [hg, Text.byteSize_append, byteSize_enclosed]
      simp only [Nat.add_assoc]

theorem groups_laminar (t : Forest) (offset : Nat) :
    (t.groups offset).Pairwise fun g h => g.Precedes h ∨ g.Encloses h := by
  induction t generalizing offset with
  | nil => exact .nil
  | plain c hc rest ih => exact ih _
  | group inside rest ihInside ihRest =>
    rw [groups, List.pairwise_cons, List.pairwise_append]
    refine ⟨?_, ihInside _, ihRest _, ?_⟩
    . intro g hg
      simp only [Group.Precedes, Group.Encloses]
      cases List.mem_append.mp hg with
      | inl hg =>
        have := bounds_of_mem_groups hg
        omega
      | inr hg =>
        have := bounds_of_mem_groups hg
        omega
    . intro g hg h hh
      have := bounds_of_mem_groups hg
      have := bounds_of_mem_groups hh
      simp only [Group.Precedes]
      omega

theorem groups_pairwise (t : Forest) (offset : Nat) :
    (t.groups offset).Pairwise (·.opening < ·.opening) := by
  apply (t.groups_laminar offset).imp_of_mem
  intro g h hg _ hlaminar
  have := bounds_of_mem_groups hg
  simp only [Group.Precedes, Group.Encloses] at hlaminar
  omega

/--
Every parenthesis of a forest opens or closes one of its groups.
-/
theorem exists_mem_groups_of_paren {t : Forest} {front rest : List Char} {side : Side}
    (h : t.chars = front ++ side.char :: rest) (offset : Nat) :
    ∃ g ∈ t.groups offset, g.place side = offset + Text.byteSize front := by
  have hopening : '('.utf8Size = 1 := by decide
  have hclosing : ')'.utf8Size = 1 := by decide
  induction t generalizing front rest offset with
  | nil => simp [chars] at h
  | plain c hc t ih =>
    cases front with
    | nil =>
      have hparen := (List.cons.inj h).1
      cases side with
      | opening => exact absurd hparen hc.1
      | closing => exact absurd hparen hc.2
    | cons d front =>
      obtain ⟨rfl, hfront⟩ := List.cons.inj h
      rw [Text.byteSize_cons, ← Nat.add_assoc]
      exact ih hfront _
  | group inside t ihInside ih =>
    cases front with
    | nil =>
      cases side with
      | opening => exact ⟨_, List.mem_cons_self, rfl⟩
      | closing => exact absurd (List.cons.inj h).1 (by decide)
    | cons d front =>
      obtain ⟨rfl, hfront⟩ := List.cons.inj h
      rw [Text.byteSize_cons, hopening, ← Nat.add_assoc]
      -- The parenthesis stands inside, or closes this group, or is behind it.
      rcases Text.append_cons_cases hfront with ⟨part, hinside, _⟩ | ⟨part, rfl, hbehind⟩
      . obtain ⟨g, hg, hplace⟩ := ihInside hinside (offset + 1)
        exact ⟨g, List.mem_cons_of_mem _ (List.mem_append_left _ hg), hplace⟩
      . cases part with
        | nil =>
          cases side with
          | opening => exact absurd (List.cons.inj hbehind).1 (by decide)
          | closing => exact ⟨_, List.mem_cons_self, by simp [Group.place]⟩
        | cons e part =>
          obtain ⟨rfl, hrest⟩ := List.cons.inj hbehind
          obtain ⟨g, hg, hplace⟩ := ih hrest (offset + 1 + Text.byteSize inside.chars + 1)
          refine ⟨g, List.mem_cons_of_mem _ (List.mem_append_right _ hg), ?_⟩
          rw [hplace, Text.byteSize_append, Text.byteSize_cons, hclosing]
          omega

theorem exists_gap (t : Forest) : ∃ gap, Text.IsPlain gap
    ∧ (t.chars = gap ∨ ∃ u rest : Forest, t.chars = gap ++ (u.enclosed ++ rest.chars)) := by
  induction t with
  | nil => exact ⟨[], by simp [Text.IsPlain], .inl rfl⟩
  | plain c hc rest ih =>
    obtain ⟨gap, hgap, hchars⟩ := ih
    refine ⟨c :: gap, by simpa [Text.IsPlain] using ⟨hc, hgap⟩, ?_⟩
    rcases hchars with hchars | ⟨u, rest', hchars⟩
    . exact .inl (by simp [chars, hchars])
    . exact .inr ⟨u, rest', by simp [chars, hchars]⟩
  | group inside rest =>
    exact ⟨[], by simp [Text.IsPlain], .inr ⟨inside, rest, by simp [chars, enclosed]⟩⟩

theorem chars_ne_closing (t : Forest) {gap : List Char} (hgap : Text.IsPlain gap)
    (rest : List Char) : t.chars ≠ gap ++ ')' :: rest := by
  induction gap generalizing t with
  | nil =>
    cases t with
    | nil => simp [chars]
    | plain c hc t =>
      intro h
      exact hc.2 (List.cons.inj h).1
    | group inside t => simp [chars]
  | cons d gap ih =>
    have hd := hgap d List.mem_cons_self
    cases t with
    | nil => simp [chars]
    | plain c hc t =>
      intro h
      exact ih t hgap.tail (List.cons.inj h).2
    | group inside t =>
      intro h
      exact hd.1 (List.cons.inj h).1.symm

/--
Every text is a forest up to a parenthesis that matches no other.
-/
theorem exists_maximal (cs : List Char) : ∃ (t : Forest) (rest : List Char), cs = t.chars ++ rest
    ∧ (rest = [] ∨ (∃ after, rest = ')' :: after)
      ∨ ∃ inside, rest = '(' :: inside ∧ ∀ (u : Forest) after, inside ≠ u.chars ++ ')' :: after) := by
  match cs with
  | [] => exact ⟨nil, [], rfl, .inl rfl⟩
  | c :: cs =>
    by_cases hclosing : c = ')'
    . exact ⟨nil, c :: cs, rfl, .inr (.inl ⟨cs, by rw [hclosing]⟩)⟩
    by_cases hopening : c = '('
    . by_cases hclosed : ∃ (u : Forest) (after : List Char), cs = u.chars ++ ')' :: after
      . obtain ⟨u, after, hcs⟩ := hclosed
        obtain ⟨t, rest, hafter, hrest⟩ := exists_maximal after
        exact ⟨group u t, rest, by simp [chars, hopening, hcs, hafter], hrest⟩
      . refine ⟨nil, c :: cs, rfl, .inr (.inr ⟨cs, by rw [hopening], ?_⟩)⟩
        intro u after h
        exact hclosed ⟨u, after, h⟩
    . obtain ⟨t, rest, hcs, hrest⟩ := exists_maximal cs
      exact ⟨plain c ⟨hopening, hclosing⟩ t, rest, by simp [chars, hcs], hrest⟩
termination_by cs.length
decreasing_by
  . simp [hcs]
    omega
  . simp

theorem eq_of_closed {t u : Forest} {as bs : List Char}
    (h : t.chars ++ ')' :: as = u.chars ++ ')' :: bs) : t = u ∧ as = bs := by
  -- The closing parenthesis is part of the statement because the inside of a group is followed by
  -- one: a forest alone may go on with what comes behind it.
  induction t generalizing u as bs with
  | nil =>
    cases u with
    | nil => simpa [chars] using h
    | plain c hc rest => simp [chars] at h; exact absurd h.1.symm hc.2
    | group inside rest => simp [chars] at h
  | plain c hc rest ih =>
    cases u with
    | nil => simp [chars] at h; exact absurd h.1 hc.2
    | plain d hd rest' =>
      simp only [chars, List.cons_append, List.cons.injEq] at h
      obtain ⟨rfl, has⟩ := ih h.2
      obtain rfl := h.1
      exact ⟨rfl, has⟩
    | group inside rest' => simp [chars] at h; exact absurd h.1 hc.1
  | group inside rest ihInside ihRest =>
    cases u with
    | nil => simp [chars] at h
    | plain d hd rest' => simp [chars] at h; exact absurd h.1.symm hd.1
    | group inside' rest' =>
      simp only [chars, List.cons_append, List.append_assoc, List.cons.injEq, true_and] at h
      obtain ⟨rfl, hrest⟩ := ihInside h
      obtain ⟨rfl, has⟩ := ihRest hrest
      exact ⟨rfl, has⟩

theorem enclosed_append_inj {t u : Forest} {as bs : List Char}
    (h : t.enclosed ++ as = u.enclosed ++ bs) : t = u ∧ as = bs := by
  apply eq_of_closed
  simpa [enclosed] using h

theorem exists_closing_of_suffix {t : Forest} {after front rest : List Char}
    (h : t.chars ++ ')' :: after = front ++ rest) (hrest : after.length < rest.length) :
    ∃ u after', rest = Forest.chars u ++ ')' :: after' := by
  -- What is left goes on as a forest up to the parenthesis that closes the group of the cut.
  induction t generalizing after front with
  | nil =>
    cases front with
    | nil => exact ⟨nil, after, h.symm⟩
    | cons c front =>
      have := congrArg List.length h
      simp [chars] at this
      omega
  | plain c hc t ih =>
    cases front with
    | nil => exact ⟨plain c hc t, after, h.symm⟩
    | cons d front =>
      simp only [chars, List.cons_append, List.cons.injEq] at h
      exact ih h.2 hrest
  | group inside t ihInside ih =>
    cases front with
    | nil => exact ⟨group inside t, after, h.symm⟩
    | cons d front =>
      simp only [chars, List.cons_append, List.append_assoc, List.cons.injEq] at h
      by_cases hlong : (t.chars ++ ')' :: after).length < rest.length
      . exact ihInside h.2 hlong
      . -- The cut lies behind the first group.
        have hrest' : rest <:+ inside.chars ++ ')' :: (t.chars ++ ')' :: after) :=
          ⟨front, h.2.symm⟩
        have hbehind : t.chars ++ ')' :: after <:+ inside.chars ++ ')' :: (t.chars ++ ')' :: after) :=
          ⟨inside.chars ++ [')'], by simp⟩
        obtain ⟨front', hfront'⟩ :=
          List.suffix_of_suffix_length_le hrest' hbehind (Nat.le_of_not_lt hlong)
        exact ih hfront'.symm hrest

end Forest
end PddlOutline
