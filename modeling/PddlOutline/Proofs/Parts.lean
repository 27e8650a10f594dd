import PddlOutline.Proofs.Keyword
import PddlOutline.Proofs.Nesting.Matching
import PddlOutline.Proofs.Text.Runs

/-!
This module contains the parts of a fragment, which are exactly what can be cut out of it, and which
parts there are: groups, what is inside of them, runs, and the tags of keywords.
-/

namespace PddlOutline
namespace Fragment

def IsPart (f part : Fragment) : Prop :=
  ∃ front rest, f.chars = front ++ (part.chars ++ rest)
    ∧ part.start = f.start + Text.byteSize front

/--
Whether the character at a byte offset is `c`, which takes one byte.
-/
def HasAt (f : Fragment) (i : Nat) (c : Char) : Prop :=
  f.slice? ⟨i, i + 1⟩ = some ⟨i, [c]⟩

instance (f : Fragment) (i : Nat) (c : Char) : Decidable (f.HasAt i c) :=
  inferInstanceAs (Decidable (f.slice? ⟨i, i + 1⟩ = some ⟨i, [c]⟩))

variable {f g part : Fragment} {span : Span} {k : Keyword} {offset : Nat} {t : Forest}

theorem IsPart.refl (f : Fragment) : f.IsPart f :=
  ⟨[], [], by simp, rfl⟩

theorem IsPart.trans (h : f.IsPart g) (h' : g.IsPart part) : f.IsPart part := by
  obtain ⟨front, rest, hchars, hstart⟩ := h
  obtain ⟨front', rest', hchars', hstart'⟩ := h'
  refine ⟨front ++ front', rest' ++ rest, ?_, ?_⟩
  . simp [hchars, hchars']
  . rw [hstart', hstart, Text.byteSize_append, Nat.add_assoc]

theorem IsPart.slice?_eq (h : f.IsPart part) : f.slice? part.span = some part := by
  obtain ⟨front, rest, hchars, hstart⟩ := h
  rw [slice?_eq_some_iff]
  refine ⟨rfl, front, rest, ?_, hstart.symm⟩
  rw [hchars, List.append_assoc]

theorem IsPart.of_slice? (h : f.slice? span = some part) : f.IsPart part := by
  obtain ⟨_, front, rest, hchars, hstart⟩ := slice?_eq_some_iff.mp h
  exact ⟨front, rest, by simp [hchars], hstart.symm⟩

theorem hasAt_iff {i : Nat} {c : Char} (hc : c.utf8Size = 1) :
    f.HasAt i c ↔ f.IsPart ⟨i, [c]⟩ := by
  constructor
  . exact IsPart.of_slice?
  . intro h
    have hslice := h.slice?_eq
    rw [span, stop, Text.byteSize_cons, hc] at hslice
    exact hslice

theorem IsPart.start_le (h : f.IsPart part) : f.start ≤ part.start := by
  obtain ⟨front, rest, _, hstart⟩ := h
  omega

theorem IsPart.stop_le (h : f.IsPart part) : part.stop ≤ f.stop := by
  obtain ⟨front, rest, hchars, hstart⟩ := h
  rw [stop, stop, hchars, hstart, Text.byteSize_append, Text.byteSize_append]
  omega

theorem start_lt_stop (h : part.chars ≠ []) : part.start < part.stop := by
  have := Text.length_le_byteSize part.chars
  have := List.length_pos_iff.mpr h
  rw [stop]
  omega

theorem IsPart.start_lt (h : f.IsPart part) (hne : part.chars ≠ []) : part.start < f.stop :=
  Nat.lt_of_lt_of_le (start_lt_stop hne) h.stop_le

theorem stop_of_enclosed (offset : Nat) (t : Forest) :
    (Fragment.mk offset t.enclosed).stop = (t.nesting offset).outer.span.stop := by
  rw [stop, Forest.byteSize_enclosed, ← Nat.add_assoc, ← Nat.add_assoc]
  rfl

theorem groupAt_iff_isPart : f.GroupAt offset t ↔ f.IsPart ⟨offset, t.enclosed⟩ :=
  Iff.rfl

theorem GroupAt.isPart_inside (h : f.GroupAt offset t) : f.IsPart ⟨offset + 1, t.chars⟩ := by
  apply IsPart.trans (groupAt_iff_isPart.mp h)
  refine ⟨['('], [')'], ?_, ?_⟩
  . simp [Forest.enclosed]
  . rfl

theorem GroupAt.isPart_of_mem_groups {b : Group} (h : f.GroupAt offset t)
    (hb : b ∈ (t.nesting offset).groups) :
    ∃ u : Forest, f.IsPart ⟨b.opening, u.enclosed⟩ ∧ b = (u.nesting b.opening).outer := by
  rw [Nesting.groups, List.mem_cons] at hb
  cases hb with
  | inl hb =>
    rw [hb]
    exact ⟨t, groupAt_iff_isPart.mp h, rfl⟩
  | inr hb =>
    obtain ⟨front, rest, u, hchars, hb⟩ := Forest.exists_of_mem_groups hb
    have hinside : f.IsPart ⟨offset + 1, t.chars⟩ := h.isPart_inside
    rw [hb]
    exact ⟨u, hinside.trans ⟨front, rest, hchars, rfl⟩, rfl⟩

theorem IsRun.isPart (h : f.IsRun part) : f.IsPart part := by
  obtain ⟨before, after, hchars, hstart, _⟩ := h
  exact ⟨before, after, hchars, hstart⟩

theorem exists_tag_of_mem_places (h : offset ∈ f.places k) :
    ∃ tag, k.Tag tag ∧ f.IsPart ⟨offset, tag⟩ := by
  obtain ⟨front, tag, rest, hchars, htag, hoffset⟩ := mem_places.mp h
  exact ⟨tag, htag, front, rest, hchars, hoffset⟩

theorem isPart_opening_of_mem_places (hk : k.form = .block) (h : offset ∈ f.places k) :
    f.IsPart ⟨offset, ['(']⟩ := by
  obtain ⟨tag, htag, hpart⟩ := exists_tag_of_mem_places h
  obtain ⟨tag, rfl⟩ := htag.eq_cons hk
  have hopening : (Fragment.mk offset ('(' :: tag)).IsPart ⟨offset, ['(']⟩ := ⟨[], tag, rfl, rfl⟩
  exact hpart.trans hopening

theorem hasAt_of_mem_places (hk : k.form = .block) (h : offset ∈ f.places k) : f.HasAt offset '(' :=
  (hasAt_iff (by decide)).mpr (isPart_opening_of_mem_places hk h)

end Fragment
end PddlOutline
