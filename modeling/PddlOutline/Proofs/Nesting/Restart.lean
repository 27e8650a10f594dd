import PddlOutline.Proofs.Nesting.Pairs

/-!
This module contains scans that start again at a pair which an earlier scan has found. They find
this pair and the pairs in it as the earlier scan did, so a section may be scanned on its own, and
the text behind it may be cut off.
-/

namespace PddlOutline

namespace Fragment

variable {f part : Fragment} {i : Nat}

theorem firstOpens_of_hasAt (h : f.HasAt i '(') : f.FirstOpens i i :=
  ⟨Nat.le_refl i, h, fun _ hle hlt => absurd hlt (Nat.not_lt_of_le hle)⟩

/--
A text that is cut behind `last` has the same parentheses up to there.
-/
theorem sameParens_of_slice? {stop first last : Nat} (h : f.slice? ⟨f.start, stop⟩ = some part)
    (hlast : last < stop) : f.SameParens part first last := by
  obtain ⟨hspan, front, rest, hchars, hstart⟩ := slice?_eq_some_iff.mp h
  have hpart : part.start = f.start := congrArg Span.start hspan
  have hstop : part.start + Text.byteSize part.chars = stop := congrArg Span.stop hspan
  have hsame : ∀ k ≤ last, ∀ c, c.utf8Size = 1 → (f.HasAt k c ↔ part.HasAt k c) := by
    intro k hk c hc
    rw [hasAt_iff hc, hasAt_iff hc]
    constructor
    . intro hat
      rw [List.append_assoc] at hchars
      rcases hat.split_cases hchars with ⟨as, bs, rfl, rfl⟩ | ⟨as, bs, hbehind, rfl⟩
      . rw [Text.byteSize_append, Text.byteSize_cons] at hstart
        have := c.utf8Size_pos
        omega
      . rcases Text.append_cons_cases hbehind with ⟨tail, hinside, _⟩ | ⟨tail, rfl, _⟩
        . exact ⟨as, tail, hinside, by rw [hstart]⟩
        . rw [Text.byteSize_append] at hk
          omega
    . exact (IsPart.of_slice? h).trans
  intro k _ hk
  exact ⟨hsame k hk '(' (by decide), hsame k hk ')' (by decide)⟩

end Fragment

/--
A scan from any pair of an earlier scan, in the text up to anywhere behind this pair, finds the pair
and those of the earlier pairs that are in it, in the same order.
-/
theorem first_restarts (f : Fragment) (start : Nat) (b : Nesting)
    (h : Nesting.first f start = .ok b) (g : Group) (hg : g ∈ b.groups) (stop : Nat)
    (hstop : g.closing < stop) (part : Fragment) (hpart : f.slice? ⟨f.start, stop⟩ = some part) :
    ∃ b', Nesting.first part g.opening = .ok b' ∧ b'.outer = g
      ∧ b'.groups = b.groups.filter fun h => g.opening ≤ h.opening ∧ h.closing ≤ g.closing := by
  have hsame : f.SameParens part g.opening g.closing := Fragment.sameParens_of_slice? hpart hstop
  obtain ⟨_, _, hat, _⟩ := ((Nesting.first_eq_ok_iff.mp h).mem_iff g).mp hg
  have hbounds := Nesting.bounds_of_first_ok h hg
  have hat' := (hsame g.opening (Nat.le_refl _) (Nat.le_of_lt hbounds.2.1)).1.mp hat
  exact Nesting.exists_first_of_mem_groups h hg hsame (Fragment.firstOpens_of_hasAt hat')

/--
The text is cut behind the first group in the group around it, which is then not closed.
-/
theorem first_restarts_truncated :
    let f := Fragment.whole "é (é (ü (a) b (c)) (d)) )".toList
    let part := Fragment.whole "é (é (ü (a) b (c))".toList
    let b : Nesting := ⟨⟨3, 25⟩, [⟨7, 20⟩, ⟨11, 13⟩, ⟨17, 19⟩, ⟨22, 24⟩]⟩
    Nesting.first f 1 = .ok b
      ∧ f.slice? ⟨0, 21⟩ = some part
      ∧ ∃ b', Nesting.first part 7 = .ok b' ∧ b'.outer = ⟨7, 20⟩
        ∧ b'.groups = [⟨7, 20⟩, ⟨11, 13⟩, ⟨17, 19⟩] := by
  intro f part b
  have hok : Nesting.first f 1 = .ok b := by
    decide +kernel
  have hpart : f.slice? ⟨0, 21⟩ = some part := by
    decide +kernel
  exact ⟨hok, hpart, first_restarts f 1 b hok ⟨7, 20⟩ (by decide) 21 (by decide) part hpart⟩

end PddlOutline
