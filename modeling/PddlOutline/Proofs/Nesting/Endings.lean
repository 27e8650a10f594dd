import PddlOutline.Proofs.Nesting.Pairs

/-!
This module contains the four ways in which a scan for parentheses ends. Each of them is said with
nothing but where parentheses stand and how many there are, and no two of them go together, so each
of them says exactly when a scan ends like this.
-/

namespace PddlOutline

namespace Fragment

variable {f : Fragment} {start start' i j : Nat}

def FreeFrom (f : Fragment) (start : Nat) : Prop :=
  ∀ i, start ≤ i → ¬ f.HasAt i '(' ∧ ¬ f.HasAt i ')'

/--
Whether the first parenthesis at or behind `start` closes, and does so at `closing`.
-/
def FirstCloses (f : Fragment) (start closing : Nat) : Prop :=
  start ≤ closing ∧ f.HasAt closing ')'
    ∧ ∀ i, start ≤ i → i < closing → ¬ f.HasAt i '(' ∧ ¬ f.HasAt i ')'

/--
Whether no offset behind `opening` is one up to which as many parentheses close as open.
-/
def NeverCloses (f : Fragment) (opening : Nat) : Prop :=
  ∀ last, opening < last → f.count '(' opening last ≠ f.count ')' opening last

theorem HasAt.not_closing (h : f.HasAt i '(') : ¬ f.HasAt i ')' := by
  intro h'
  cases h.symm.trans h'

theorem HasAt.lt_stop {c : Char} (h : f.HasAt i c) : i < f.stop := by
  have hpart : f.IsPart ⟨i, [c]⟩ := .of_slice? h
  exact hpart.start_lt (List.cons_ne_nil c [])

theorem FirstCloses.unique (hi : f.FirstCloses start i) (hj : f.FirstCloses start j) : i = j := by
  rcases Nat.lt_trichotomy i j with hlt | heq | hlt
  . exact absurd hi.2.1 (hj.2.2 i hi.1 hlt).2
  . exact heq
  . exact absurd hj.2.1 (hi.2.2 j hj.1 hlt).2

theorem FirstOpens.not_firstCloses (hi : f.FirstOpens start i) : ¬ f.FirstCloses start j := by
  intro hj
  rcases Nat.lt_trichotomy i j with hlt | rfl | hlt
  . exact (hj.2.2 i hi.1 hlt).1 hi.2.1
  . exact hi.2.1.not_closing hj.2.1
  . exact (hi.2.2 j hj.1 hlt).2 hj.2.1

theorem Closes.not_neverCloses (h : f.Closes i j) : ¬ f.NeverCloses i :=
  fun hnever => hnever j h.1 h.2.1

theorem not_hasAt_of_same (hsame : ∀ i c, f.IsPart ⟨i, [c]⟩ → (start ≤ i ↔ start' ≤ i))
    (hi : start' ≤ i) (h : start ≤ i → ¬ f.HasAt i '(' ∧ ¬ f.HasAt i ')') :
    ¬ f.HasAt i '(' ∧ ¬ f.HasAt i ')' := by
  constructor
  . intro hat
    exact (h ((hsame i '(' (.of_slice? hat)).mpr hi)).1 hat
  . intro hat
    exact (h ((hsame i ')' (.of_slice? hat)).mpr hi)).2 hat

end Fragment

namespace Nesting

open Fragment

variable {f : Fragment} {start start' : Nat} {x y : Except NestingError Nesting}

/--
How a scan that starts at `start` should end.
-/
inductive Settles (f : Fragment) (start : Nat) : Except NestingError Nesting → Prop
  | noGroup (h : f.FreeFrom start) : Settles f start (.error .noGroup)
  | unopened {i : Nat} (h : f.FirstCloses start i) : Settles f start (.error (.unopened i))
  | unclosed {i : Nat} (h : f.FirstOpens start i) (hnever : f.NeverCloses i) :
    Settles f start (.error (.unclosed i))
  | ok {b : Nesting} (h : b.IsPairing f start) : Settles f start (.ok b)

theorem Settles.of_same (hsame : ∀ i c, f.IsPart ⟨i, [c]⟩ → (start ≤ i ↔ start' ≤ i))
    (h : Settles f start x) : Settles f start' x := by
  cases h with
  | noGroup h => exact .noGroup fun i hi => not_hasAt_of_same hsame hi (h i)
  | unopened h =>
    refine .unopened ⟨(hsame _ ')' (.of_slice? h.2.1)).mp h.1, h.2.1, ?_⟩
    intro i hi hlt
    exact not_hasAt_of_same hsame hi fun hi => h.2.2 i hi hlt
  | unclosed h hnever => exact .unclosed (h.of_same hsame) hnever
  | ok h => exact .ok ⟨h.opens.of_same hsame, h.closes, h.head, h.sorted, h.mem_iff⟩

theorem settles_of_append {front rest : List Char} (h : f.chars = front ++ rest) :
    Settles f (f.start + Text.byteSize front) (first f (f.start + Text.byteSize front)) := by
  obtain ⟨gap, rest, rfl, hgap, hrest⟩ := Text.exists_gap rest
  cases rest with
  | nil =>
    rw [first_of_gap hgap h]
    refine .noGroup fun i hi => ?_
    -- The gap goes up to the end of the text.
    have hstop : f.stop = f.start + Text.byteSize front + Text.byteSize gap := by
      rw [stop, h, List.append_nil, Text.byteSize_append, Nat.add_assoc]
    constructor
    . intro hat
      exact (not_hasAt_of_gap hgap h hi (hstop ▸ hat.lt_stop)).1 hat
    . intro hat
      exact (not_hasAt_of_gap hgap h hi (hstop ▸ hat.lt_stop)).2 hat
  | cons c rest =>
    rcases hrest c rfl with rfl | rfl
    . have hopens := firstOpens_of_gap hgap h
      by_cases hclosed : ∃ (t : Forest) (after : List Char), rest = t.chars ++ ')' :: after
      . obtain ⟨t, after, rfl⟩ := hclosed
        have hgroup : f.chars = front ++ (gap ++ (t.enclosed ++ after)) := by
          simp [h, Forest.enclosed]
        rw [first_of_enclosed hgap hgroup]
        refine .ok (isPairing_nesting hopens ⟨front ++ gap, after, by simp [hgroup], ?_⟩)
        rw [Text.byteSize_append, Nat.add_assoc]
      . have hopen : ∀ (t : Forest) after, rest ≠ t.chars ++ ')' :: after :=
          fun t after hrest => hclosed ⟨t, after, hrest⟩
        rw [first_of_unclosed hgap h hopen]
        refine .unclosed hopens fun last hlast => ?_
        have hbehind : f.chars = (front ++ gap) ++ '(' :: rest := by simp [h]
        have hplace : f.start + Text.byteSize front + Text.byteSize gap
            = f.start + Text.byteSize (front ++ gap) := by
          rw [Text.byteSize_append, Nat.add_assoc]
        have := count_closing_lt hbehind hplace hopen (Nat.le_of_lt hlast)
        omega
    . rw [first_of_closing hgap h]
      exact .unopened ⟨Nat.le_add_right _ _, hasAt_of_gap (by decide) h,
        fun _ hk hlt => not_hasAt_of_gap hgap h hk hlt⟩

theorem settles_first (f : Fragment) (start : Nat) : Settles f start (first f start) := by
  obtain ⟨front, rest, hchars, hsame, hfirst⟩ := exists_boundary f start
  rw [hfirst]
  exact (settles_of_append hchars).of_same fun i c hc => (hsame i c hc).symm

/--
A scan ends in one way.
-/
theorem Settles.unique (hx : Settles f start x) (hy : Settles f start y) : x = y := by
  cases hx with
  | noGroup hx =>
    cases hy with
    | noGroup => rfl
    | unopened hy => exact absurd hy.2.1 (hx _ hy.1).2
    | unclosed hy => exact absurd hy.2.1 (hx _ hy.1).1
    | ok hy => exact absurd hy.opens.2.1 (hx _ hy.opens.1).1
  | unopened hx =>
    cases hy with
    | noGroup hy => exact absurd hx.2.1 (hy _ hx.1).2
    | unopened hy => rw [hx.unique hy]
    | unclosed hy => exact absurd hx hy.not_firstCloses
    | ok hy => exact absurd hx hy.opens.not_firstCloses
  | unclosed hx hnever =>
    cases hy with
    | noGroup hy => exact absurd hx.2.1 (hy _ hx.1).1
    | unopened hy => exact absurd hy hx.not_firstCloses
    | unclosed hy => rw [hx.unique hy]
    | ok hy => exact absurd (hx.unique hy.opens ▸ hnever) hy.closes.not_neverCloses
  | ok hx =>
    cases hy with
    | noGroup hy => exact absurd hx.opens.2.1 (hy _ hx.opens.1).1
    | unopened hy => exact absurd hy hx.opens.not_firstCloses
    | unclosed hy hnever => exact absurd (hy.unique hx.opens ▸ hnever) hx.closes.not_neverCloses
    | ok hy => rw [hx.unique hy]

theorem first_eq_iff : first f start = x ↔ Settles f start x := by
  constructor
  . intro h
    rw [← h]
    exact settles_first f start
  . exact (settles_first f start).unique

theorem first_eq_noGroup_iff : first f start = .error .noGroup ↔ f.FreeFrom start := by
  rw [first_eq_iff]
  constructor
  . intro h
    cases h with
    | noGroup h => exact h
  . exact .noGroup

theorem first_eq_unopened_iff {i : Nat} :
    first f start = .error (.unopened i) ↔ f.FirstCloses start i := by
  rw [first_eq_iff]
  constructor
  . intro h
    cases h with
    | unopened h => exact h
  . exact .unopened

theorem first_eq_unclosed_iff {i : Nat} :
    first f start = .error (.unclosed i) ↔ f.FirstOpens start i ∧ f.NeverCloses i := by
  rw [first_eq_iff]
  constructor
  . intro h
    cases h with
    | unclosed h hnever => exact ⟨h, hnever⟩
  . exact fun h => .unclosed h.1 h.2

end Nesting
end PddlOutline
