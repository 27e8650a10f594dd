import Mathlib.Order.Interval.Finset.Nat
import PddlOutline.Proofs.Nesting.Balance
import PddlOutline.Proofs.Parts

/-!
This module contains how many parentheses of each kind stand between two places of a text. Groups
are said with nothing but these numbers: one is closed at the least offset up to which as many
parentheses close as open.
-/

namespace PddlOutline

namespace Text

/--
The characters that start before the byte offset `n`.
-/
def before (n : Nat) : List Char → List Char
  | [] => []
  | c :: cs => if n = 0 then [] else c :: before (n - c.utf8Size) cs

theorem before_zero (cs : List Char) : before 0 cs = [] := by
  cases cs with
  | nil => rfl
  | cons c cs => rw [before, if_pos rfl]

theorem before_append_of_le {n : Nat} {as : List Char} (h : n ≤ byteSize as) (bs : List Char) :
    before n (as ++ bs) = before n as := by
  induction as generalizing n with
  | nil => rw [Nat.le_zero.mp h, before_zero, before_zero]
  | cons a as ih =>
    rw [byteSize_cons] at h
    rw [List.cons_append, before, before, ih (by omega)]

theorem before_byteSize (cs : List Char) : before (byteSize cs) cs = cs := by
  induction cs with
  | nil => rfl
  | cons c cs ih =>
    have := c.utf8Size_pos
    rw [before, byteSize_cons, if_neg (by omega), Nat.add_sub_cancel_left, ih]

theorem exists_behind (n : Nat) (cs : List Char) : ∃ rest, cs = before n cs ++ rest
    ∧ (rest = [] ∨ n ≤ byteSize (before n cs)) := by
  induction cs generalizing n with
  | nil => exact ⟨[], rfl, .inl rfl⟩
  | cons c cs ih =>
    rw [before]
    split
    next h => exact ⟨c :: cs, rfl, .inr (by omega)⟩
    next h =>
      obtain ⟨rest, hcs, hrest⟩ := ih (n - c.utf8Size)
      refine ⟨rest, by rw [List.cons_append, ← hcs], hrest.imp_right fun hle => ?_⟩
      rw [byteSize_cons]
      omega

theorem byteSize_lt_of_before {n : Nat} {cs as bs : List Char} {c : Char}
    (h : before n cs = as ++ c :: bs) : byteSize as < n := by
  induction as generalizing n cs with
  | nil =>
    refine Nat.pos_of_ne_zero ?_
    rintro rfl
    rw [before_zero] at h
    cases h
  | cons a as ih =>
    cases cs with
    | nil => cases h
    | cons d cs =>
      rw [before] at h
      split at h
      . cases h
      . obtain ⟨rfl, hbefore⟩ := List.cons.inj h
        have := ih hbefore
        rw [byteSize_cons]
        omega

end Text

namespace Fragment

variable {f : Fragment} {front rest : List Char} {c : Char} {i j : Nat} {t : Forest}

theorem IsPart.exists_split (h : f.IsPart ⟨i, [c]⟩) :
    ∃ as bs, f.chars = as ++ c :: bs ∧ i = f.start + Text.byteSize as :=
  h

/--
A character stands in the first part of a text or in what is behind it.
-/
theorem IsPart.split_cases (hchars : f.chars = front ++ rest) (h : f.IsPart ⟨i, [c]⟩) :
    (∃ as bs, front = as ++ c :: bs ∧ i = f.start + Text.byteSize as)
      ∨ ∃ as bs, rest = as ++ c :: bs
        ∧ i = f.start + Text.byteSize front + Text.byteSize as := by
  obtain ⟨as, bs, hsplit, rfl⟩ := h.exists_split
  rw [hchars] at hsplit
  rcases Text.append_cons_cases hsplit with ⟨part, hfront, _⟩ | ⟨part, rfl, hrest⟩
  . exact .inl ⟨as, part, hfront, rfl⟩
  . exact .inr ⟨part, bs, hrest, by rw [Text.byteSize_append, Nat.add_assoc]⟩

/--
How often a character that takes one byte stands at the offsets from `first` to `last`.
-/
def count (f : Fragment) (c : Char) (first last : Nat) : Nat :=
  ((Finset.Icc first last).filter (f.HasAt · c)).card

theorem mem_count {first last : Nat} :
    i ∈ (Finset.Icc first last).filter (f.HasAt · c) ↔ first ≤ i ∧ i ≤ last ∧ f.HasAt i c := by
  rw [Finset.mem_filter, Finset.mem_Icc, and_assoc]

theorem count_cons (hc : c.utf8Size = 1) {d : Char} (h : f.chars = front ++ d :: rest) {last : Nat}
    (hlast : f.start + Text.byteSize front ≤ last) :
    f.count c (f.start + Text.byteSize front) last
      =
    f.count c (f.start + Text.byteSize front + d.utf8Size) last + if d = c then 1 else 0 := by
  have hsize := d.utf8Size_pos
  -- Behind the first character, the next one starts where its bytes end.
  have hcases : ∀ i, f.start + Text.byteSize front ≤ i → f.HasAt i c →
      i = f.start + Text.byteSize front ∧ d = c
        ∨ f.start + Text.byteSize front + d.utf8Size ≤ i := by
    intro i hi hat
    rcases ((hasAt_iff hc).mp hat).split_cases h with ⟨as, bs, rfl, rfl⟩ | ⟨as, bs, hrest, rfl⟩
    . rw [Text.byteSize_append, Text.byteSize_cons, hc] at hi
      omega
    . cases as with
      | nil => exact .inl ⟨by simp, (List.cons.inj hrest).1⟩
      | cons a as =>
        obtain ⟨rfl, _⟩ := List.cons.inj hrest
        rw [Text.byteSize_cons]
        omega
  unfold count
  split
  next hd =>
    subst hd
    have hfirst : f.HasAt (f.start + Text.byteSize front) d :=
      (hasAt_iff hc).mpr ⟨front, rest, h, rfl⟩
    have hnot : f.start + Text.byteSize front
        ∉ (Finset.Icc (f.start + Text.byteSize front + d.utf8Size) last).filter (f.HasAt · d) := by
      rw [mem_count]
      omega
    rw [← Finset.card_insert_of_notMem hnot]
    congr 1
    ext i
    rw [Finset.mem_insert, mem_count, mem_count]
    constructor
    . rintro ⟨hi, hle, hat⟩
      exact (hcases i hi hat).imp And.left fun hi => ⟨hi, hle, hat⟩
    . rintro (rfl | ⟨hi, hle, hat⟩)
      . exact ⟨Nat.le_refl _, hlast, hfirst⟩
      . exact ⟨by omega, hle, hat⟩
  next hd =>
    rw [Nat.add_zero]
    congr 1
    ext i
    rw [mem_count, mem_count]
    constructor
    . rintro ⟨hi, hle, hat⟩
      exact ⟨(hcases i hi hat).resolve_left (hd ·.2), hle, hat⟩
    . rintro ⟨hi, hle, hat⟩
      exact ⟨by omega, hle, hat⟩

theorem count_eq (hc : c.utf8Size = 1) (h : f.chars = front ++ rest) (last : Nat) :
    f.count c (f.start + Text.byteSize front) last
      =
    (Text.before (last + 1 - (f.start + Text.byteSize front)) rest).count c := by
  induction rest generalizing front with
  | nil =>
    rw [Text.before, List.count_nil, count, Finset.card_eq_zero, Finset.eq_empty_iff_forall_notMem]
    intro i hi
    rw [mem_count] at hi
    rcases ((hasAt_iff hc).mp hi.2.2).split_cases h with ⟨as, bs, rfl, rfl⟩ | ⟨as, bs, hrest, _⟩
    . simp only [Text.byteSize_append, Text.byteSize_cons, hc] at hi
      omega
    . simp at hrest
  | cons d rest ih =>
    have hnext : f.chars = (front ++ [d]) ++ rest := by simp [h]
    have hrest := ih hnext
    rw [Text.byteSize_append, Text.byteSize_cons, Text.byteSize_nil, Nat.add_zero, ← Nat.add_assoc]
      at hrest
    rw [Text.before]
    split
    next hbehind =>
      rw [List.count_nil, count, Finset.Icc_eq_empty (by omega)]
      rfl
    next hreached =>
      rw [count_cons hc h (by omega), hrest, List.count_cons, Nat.sub_sub]
      simp only [beq_iff_eq]

/--
Whether `closing` is the least offset behind `opening` such that as many parentheses open as close
from the one to the other.
-/
def Closes (f : Fragment) (opening closing : Nat) : Prop :=
  opening < closing ∧ f.count '(' opening closing = f.count ')' opening closing
    ∧ ∀ last, opening < last → last < closing →
      f.count '(' opening last ≠ f.count ')' opening last

theorem count_of_opening {inside : List Char} (h : f.chars = front ++ '(' :: inside)
    (hi : i = f.start + Text.byteSize front) {last : Nat} (hlast : i ≤ last) :
    f.count '(' i last = (Text.before (last - i) inside).count '(' + 1
      ∧ f.count ')' i last = (Text.before (last - i) inside).count ')' := by
  have hopening : '('.utf8Size = 1 := by decide
  have hcut : Text.before (last + 1 - i) ('(' :: inside)
      = '(' :: Text.before (last - i) inside := by
    rw [Text.before, if_neg (by omega), hopening, Nat.sub_right_comm, Nat.add_sub_cancel]
  subst hi
  rw [count_eq (by decide) h, count_eq (by decide) h, hcut]
  exact ⟨List.count_cons_self, List.count_cons_of_ne (by decide)⟩

theorem closes_of_groupAt (h : f.GroupAt i t) : f.Closes i (i + 1 + Text.byteSize t.chars) := by
  obtain ⟨front, rest, hchars, hi⟩ := h
  have hopening : f.chars = front ++ '(' :: (t.chars ++ ')' :: rest) := by
    simp [hchars, Forest.enclosed]
  refine ⟨by omega, ?_, ?_⟩
  . have hall : Text.before (i + 1 + Text.byteSize t.chars - i) (t.chars ++ ')' :: rest)
        = t.chars ++ [')'] := by
      have hsize : i + 1 + Text.byteSize t.chars - i = Text.byteSize (t.chars ++ [')']) := by
        have hclosing : ')'.utf8Size = 1 := by decide
        rw [Text.byteSize_append, Text.byteSize_cons, Text.byteSize_nil, hclosing]
        omega
      rw [hsize, List.append_cons t.chars ')' rest, Text.before_append_of_le (Nat.le_refl _),
        Text.before_byteSize]
    have hcount := count_of_opening hopening hi (by omega : i ≤ i + 1 + Text.byteSize t.chars)
    rw [hcount.1, hcount.2, hall]
    simp [t.count_opening_chars]
  . -- Up to the last character inside of the group, its first parenthesis is still open.
    intro last hfirst hlast
    have hpart : Text.before (last - i) (t.chars ++ ')' :: rest) = Text.before (last - i) t.chars :=
      Text.before_append_of_le (by omega) _
    obtain ⟨behind, hbehind, _⟩ := Text.exists_behind (last - i) t.chars
    have := Forest.count_closing_le hbehind
    have hcount := count_of_opening hopening hi (Nat.le_of_lt hfirst)
    rw [hcount.1, hcount.2, hpart]
    omega

/--
What is never closed has more opening than closing parentheses up to every offset.
-/
theorem count_closing_lt {inside : List Char} (h : f.chars = front ++ '(' :: inside)
    (hi : i = f.start + Text.byteSize front)
    (hopen : ∀ (t : Forest) after, inside ≠ t.chars ++ ')' :: after) {last : Nat}
    (hlast : i ≤ last) : f.count ')' i last < f.count '(' i last := by
  obtain ⟨behind, hbehind, _⟩ := Text.exists_behind (last - i) inside
  have hunclosed : ∀ (t : Forest) after,
      Text.before (last - i) inside ≠ t.chars ++ ')' :: after := by
    intro t after hbefore
    rw [hbefore] at hbehind
    exact hopen t (after ++ behind) (by simp [hbehind])
  have hcount := count_of_opening h hi hlast
  have := Forest.count_closing_le_of_unclosed hunclosed
  omega

theorem exists_groupAt_of_closes (hi : f.HasAt i '(') (h : f.Closes i j) : ∃ t, f.GroupAt i t := by
  obtain ⟨front, inside, hchars, hstart⟩ := ((hasAt_iff (by decide)).mp hi).exists_split
  by_cases hclosed : ∃ (t : Forest) (after : List Char), inside = t.chars ++ ')' :: after
  . obtain ⟨t, after, rfl⟩ := hclosed
    exact ⟨t, front, after, by simp [hchars, Forest.enclosed], hstart⟩
  . have hopen : ∀ (t : Forest) after, inside ≠ t.chars ++ ')' :: after :=
      fun t after hinside => hclosed ⟨t, after, hinside⟩
    have := count_closing_lt hchars hstart hopen (Nat.le_of_lt h.1)
    have := h.2.1
    omega

theorem Closes.unique {k : Nat} (hj : f.Closes i j) (hk : f.Closes i k) : j = k := by
  rcases Nat.lt_trichotomy j k with hlt | heq | hlt
  . exact absurd hj.2.1 (hk.2.2 j hj.1 hlt)
  . exact heq
  . exact absurd hk.2.1 (hj.2.2 k hk.1 hlt)

end Fragment
end PddlOutline
