import PddlOutline.Proofs.Nesting.Matching

/-!
This module contains the balance of parentheses, which is said with nothing but numbers of
parentheses, and the pairs of parentheses that match in a text. Forests are exactly the balanced
texts, so the pairs that match are exactly the groups that a scan finds.
-/

namespace PddlOutline
namespace Text

/--
Whether a text has as many opening as closing parentheses, and nothing that it starts with has more
closing ones.
-/
def IsBalanced (cs : List Char) : Prop :=
  cs.count '(' = cs.count ')'
    ∧ ∀ front rest, cs = front ++ rest → front.count ')' ≤ front.count '('

theorem isBalanced_iff_take {cs : List Char} :
    IsBalanced cs ↔ cs.count '(' = cs.count ')'
      ∧ ∀ n ∈ List.range (cs.length + 1), (cs.take n).count ')' ≤ (cs.take n).count '(' := by
  constructor
  . intro h
    exact ⟨h.1, fun n _ => h.2 _ _ (List.take_append_drop n cs).symm⟩
  . intro h
    refine ⟨h.1, ?_⟩
    rintro front rest rfl
    have hfront := h.2 front.length (List.mem_range.mpr (by rw [List.length_append]; omega))
    rwa [List.take_left] at hfront

instance (cs : List Char) : Decidable (IsBalanced cs) :=
  decidable_of_iff _ isBalanced_iff_take.symm

end Text

namespace Forest

theorem count_opening_chars (t : Forest) : t.chars.count '(' = t.chars.count ')' := by
  induction t with
  | nil => rfl
  | plain c hc rest ih =>
    rw [chars, List.count_cons_of_ne hc.1, List.count_cons_of_ne hc.2, ih]
  | group inside rest ihInside ihRest =>
    simp [chars, ihInside, ihRest]
    omega

theorem count_closing_le {t : Forest} {front rest : List Char} (h : t.chars = front ++ rest) :
    front.count ')' ≤ front.count '(' := by
  induction t generalizing front rest with
  | nil =>
    rw [(List.append_eq_nil_iff.mp h.symm).1]
    exact Nat.le_refl _
  | plain c hc t ih =>
    cases front with
    | nil => exact Nat.le_refl _
    | cons d front =>
      obtain ⟨rfl, hfront⟩ := List.cons.inj h
      rw [List.count_cons_of_ne hc.1, List.count_cons_of_ne hc.2]
      exact ih hfront
  | group inside t ihInside ih =>
    cases front with
    | nil => exact Nat.le_refl _
    | cons d front =>
      obtain ⟨rfl, hfront⟩ := List.cons.inj h
      have hcount := inside.count_opening_chars
      -- The front ends inside the group or behind the parenthesis that closes it.
      rcases Text.append_cons_cases hfront.symm with ⟨part, rfl, hrest⟩ | ⟨part, hinside, _⟩
      . have := ih hrest
        simp
        omega
      . have := ihInside hinside
        simp
        omega

theorem isBalanced_chars (t : Forest) : Text.IsBalanced t.chars :=
  ⟨t.count_opening_chars, fun _ _ h => count_closing_le h⟩

/--
A text without a parenthesis that would close it from outside has no more closing than opening
parentheses.
-/
theorem count_closing_le_of_unclosed {cs : List Char}
    (h : ∀ (t : Forest) after, cs ≠ t.chars ++ ')' :: after) : cs.count ')' ≤ cs.count '(' := by
  obtain ⟨t, rest, hcs, rfl | ⟨after, rfl⟩ | ⟨inside, rfl, hinside⟩⟩ := exists_maximal cs
  . rw [hcs, List.append_nil]
    exact Nat.le_of_eq t.count_opening_chars.symm
  . exact absurd hcs (h t after)
  . have := count_closing_le_of_unclosed hinside
    have := t.count_opening_chars
    rw [hcs, List.count_append, List.count_append, List.count_cons_self,
      List.count_cons_of_ne (by decide)]
    omega
termination_by cs.length
decreasing_by
  simp [hcs]
  omega

theorem exists_of_isBalanced {cs : List Char} (h : Text.IsBalanced cs) :
    ∃ t : Forest, cs = t.chars := by
  obtain ⟨t, rest, hcs, rfl | ⟨after, rfl⟩ | ⟨inside, rfl, hinside⟩⟩ := exists_maximal cs
  . exact ⟨t, by simp [hcs]⟩
  . -- The closing parenthesis behind the forest is one too many.
    have hfront := h.2 (t.chars ++ [')']) after (by simp [hcs])
    have := t.count_opening_chars
    simp at hfront
    omega
  . have hcount := h.1
    have := t.count_opening_chars
    have := count_closing_le_of_unclosed hinside
    simp [hcs] at hcount
    omega

theorem isBalanced_iff {cs : List Char} : Text.IsBalanced cs ↔ ∃ t : Forest, cs = t.chars := by
  constructor
  . exact exists_of_isBalanced
  . rintro ⟨t, rfl⟩
    exact t.isBalanced_chars

/--
Every closing parenthesis of a forest closes one of its groups.
-/
theorem exists_opening_of_closing {t : Forest} {front after : List Char}
    (h : t.chars = front ++ ')' :: after) :
    ∃ front' u, front = front' ++ '(' :: Forest.chars u := by
  induction t generalizing front after with
  | nil => simp [chars] at h
  | plain c hc t ih =>
    cases front with
    | nil => exact absurd (List.cons.inj h).1 hc.2
    | cons d front =>
      obtain ⟨front', u, rfl⟩ := ih (List.cons.inj h).2
      exact ⟨d :: front', u, rfl⟩
  | group inside t ihInside ih =>
    cases front with
    | nil => exact absurd (List.cons.inj h).1 (by decide)
    | cons d front =>
      obtain ⟨rfl, hfront⟩ := List.cons.inj h
      -- The parenthesis stands inside, or closes this group, or is behind it.
      rcases Text.append_cons_cases hfront with ⟨part, hinside, _⟩ | ⟨part, rfl, hbehind⟩
      . obtain ⟨front', u, rfl⟩ := ihInside hinside
        exact ⟨'(' :: front', u, rfl⟩
      . cases part with
        | nil => exact ⟨[], inside, by simp⟩
        | cons e part =>
          obtain ⟨front', u, rfl⟩ := ih (List.cons.inj hbehind).2
          exact ⟨'(' :: (inside.chars ++ e :: front'), u, by simp⟩

end Forest

namespace Fragment

/--
Whether the parenthesis that opens at a byte offset is closed by the one at another, which is so if
the text between them is balanced.
-/
def Matched (f : Fragment) (opening closing : Nat) : Prop :=
  ∃ front inside rest, f.chars = front ++ '(' :: (inside ++ ')' :: rest) ∧ Text.IsBalanced inside
    ∧ opening = f.start + Text.byteSize front ∧ closing = opening + 1 + Text.byteSize inside

variable {f : Fragment} {i j : Nat}

theorem matched_iff : f.Matched i j ↔ ∃ t, f.GroupAt i t ∧ j = i + 1 + Text.byteSize t.chars := by
  constructor
  . rintro ⟨front, inside, rest, hchars, hinside, hi, hj⟩
    obtain ⟨t, rfl⟩ := Forest.isBalanced_iff.mp hinside
    exact ⟨t, ⟨front, rest, by simp [hchars, Forest.enclosed], hi⟩, hj⟩
  . rintro ⟨t, ⟨front, rest, hchars, hi⟩, hj⟩
    exact ⟨front, t.chars, rest, by simp [hchars, Forest.enclosed], t.isBalanced_chars, hi, hj⟩

theorem forall_not_matched_iff : (∀ j, ¬ f.Matched i j) ↔ ∀ t, ¬ f.GroupAt i t := by
  constructor
  . intro h t ht
    exact h _ (matched_iff.mpr ⟨t, ht, rfl⟩)
  . intro h j hj
    obtain ⟨t, ht, _⟩ := matched_iff.mp hj
    exact h t ht

theorem forall_not_matched_of_isBalanced {front rest : List Char}
    (h : f.chars = front ++ ')' :: rest) (hfront : Text.IsBalanced front) :
    ∀ i, ¬ f.Matched i (f.start + Text.byteSize front) := by
  rintro i ⟨front', inside, rest', hchars, hinside, hi, hj⟩
  have hopening : '('.utf8Size = 1 := by decide
  have hcut : front ++ ')' :: rest = (front' ++ '(' :: inside) ++ ')' :: rest' := by
    rw [← h, hchars, List.append_assoc, List.cons_append]
  have hsame : front = front' ++ '(' :: inside := by
    apply (append_inj_of_byteSize hcut _).1
    simp only [Text.byteSize_append, Text.byteSize_cons, hopening]
    omega
  -- In front of the opening parenthesis, there would be more closing than opening ones.
  have hcount := hfront.1
  have := hfront.2 front' _ hsame
  have := hinside.1
  simp [hsame] at hcount
  omega

theorem GroupAt.exists_groupAt_inside {t : Forest} {front rest : List Char} (h : f.GroupAt i t)
    (hchars : t.enclosed = front ++ '(' :: rest) :
    ∃ u, f.GroupAt (i + Text.byteSize front) u := by
  obtain ⟨before, after, hf, rfl⟩ := h
  cases front with
  | nil => exact ⟨t, before, after, hf, rfl⟩
  | cons c front =>
    -- The text from the parenthesis on goes on as a forest up to one that closes the group.
    have hinside : t.chars ++ ')' :: [] = front ++ '(' :: rest := (List.cons.inj hchars).2
    obtain ⟨u, behind, hu⟩ := Forest.exists_closing_of_suffix hinside (by simp)
    cases u with
    | nil => exact absurd (List.cons.inj hu).1 (by decide)
    | plain d hd u => exact absurd (List.cons.inj hu).1.symm hd.1
    | group inside u =>
      refine ⟨inside, before ++ c :: front, u.chars ++ ')' :: (behind ++ after), ?_, ?_⟩
      . rw [hf, hchars, hu]
        simp [Forest.chars, Forest.enclosed]
      . rw [Text.byteSize_append, Nat.add_assoc]

theorem GroupAt.exists_groupAt_of_lt {o : Nat} {t : Forest} (h : f.GroupAt o t)
    {front rest : List Char} (hchars : f.chars = front ++ '(' :: rest)
    (hi : i = f.start + Text.byteSize front) (hle : o ≤ i)
    (hlt : i < o + Text.byteSize t.enclosed) : ∃ u, f.GroupAt i u := by
  obtain ⟨before, after, hf, ho⟩ := id h
  rw [hchars] at hf
  rcases List.append_eq_append_iff.mp hf with ⟨skipped, rfl, _⟩ | ⟨part, rfl, hpart⟩
  . -- The group does not start behind the parenthesis, so it starts with it.
    have := Text.length_le_byteSize skipped
    rw [Text.byteSize_append] at ho
    have hsame : i = o := by omega
    exact ⟨t, hsame ▸ h⟩
  . rw [Text.byteSize_append] at hi
    rcases List.append_eq_append_iff.mp hpart with ⟨beyond, rfl, _⟩ | ⟨inner, hinner, hrest⟩
    . rw [Text.byteSize_append] at hi
      omega
    . cases inner with
      | nil =>
        rw [hinner, Text.byteSize_append, Text.byteSize_nil] at hlt
        omega
      | cons c inner =>
        obtain ⟨rfl, _⟩ := List.cons.inj hrest
        have hwhere : i = o + Text.byteSize part := by omega
        rw [hwhere]
        exact h.exists_groupAt_inside hinner

theorem GroupAt.exists_matched {t : Forest} {front after : List Char} (h : f.GroupAt i t)
    (hclosing : t.enclosed = front ++ ')' :: after) :
    ∃ o, f.Matched o (i + Text.byteSize front) := by
  have hgroup : (Forest.group t .nil).chars = front ++ ')' :: after := hclosing
  obtain ⟨front', u, rfl⟩ := Forest.exists_opening_of_closing hgroup
  obtain ⟨before, rest, hchars, rfl⟩ := h
  have hopening : '('.utf8Size = 1 := by decide
  refine ⟨f.start + Text.byteSize (before ++ front'), before ++ front', u.chars, after ++ rest,
    ?_, u.isBalanced_chars, rfl, ?_⟩
  . simp [hchars, hclosing]
  . simp only [Text.byteSize_append, Text.byteSize_cons, hopening]
    omega

theorem forall_not_matched_of_first_error {e : NestingError} (h : Nesting.first f i = .error e) :
    ∀ j, ¬ f.Matched i j := by
  intro j hj
  obtain ⟨t, ht, _⟩ := matched_iff.mp hj
  rw [Nesting.first_of_groupAt ht] at h
  cases h

end Fragment
end PddlOutline
