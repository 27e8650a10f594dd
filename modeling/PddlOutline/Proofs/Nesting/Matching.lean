import PddlOutline.Proofs.Nesting.Forest

/-!
This module contains what a scan for parentheses answers. It succeeds with the forest in the first
group if there is one, and fails with the first parenthesis if this one matches no other; what
stands before the scan starts or behind the group plays no role.
-/

namespace PddlOutline
namespace Fragment

/--
Whether the group of parentheses that opens at a byte offset is closed and holds the forest `t`.
-/
def GroupAt (f : Fragment) (offset : Nat) (t : Forest) : Prop :=
  ∃ front rest, f.chars = front ++ (t.enclosed ++ rest) ∧ offset = f.start + Text.byteSize front

theorem append_inj_of_byteSize {as bs cs ds : List Char} (h : as ++ bs = cs ++ ds)
    (hsize : Text.byteSize as = Text.byteSize cs) : as = cs ∧ bs = ds := by
  have hdrop := Text.dropBytes?_append as bs
  rw [h, hsize, Text.dropBytes?_append, Option.some.injEq] at hdrop
  subst hdrop
  exact ⟨List.append_cancel_right h, rfl⟩

theorem GroupAt.unique {f : Fragment} {offset : Nat} {t u : Forest} (ht : f.GroupAt offset t)
    (hu : f.GroupAt offset u) : t = u := by
  obtain ⟨front, rest, hchars, hoffset⟩ := ht
  obtain ⟨front', rest', hchars', hoffset'⟩ := hu
  rw [hchars] at hchars'
  have hsame := append_inj_of_byteSize hchars' (by omega)
  exact (Forest.enclosed_append_inj hsame.2).1

theorem marks_go_append (offset : Nat) (as bs : List Char) :
    marks.go offset (as ++ bs)
      =
    marks.go offset as ++ marks.go (offset + Text.byteSize as) bs := by
  induction as generalizing offset with
  | nil => rfl
  | cons c as ih =>
    simp only [List.cons_append, marks.go, ih, Text.byteSize_cons, Nat.add_assoc]
    split
    . rfl
    . split <;> rfl

theorem marks_go_of_isPlain {gap : List Char} (h : Text.IsPlain gap) (offset : Nat) :
    marks.go offset gap = [] := by
  induction gap generalizing offset with
  | nil => rfl
  | cons c gap ih =>
    have hc := h c List.mem_cons_self
    rw [marks.go, if_neg hc.1, if_neg hc.2]
    exact ih (fun d hd => h d (List.mem_cons_of_mem c hd)) _

theorem offset_of_mem_marks_go {offset : Nat} {cs : List Char} {m : Mark}
    (h : m ∈ marks.go offset cs) : offset ≤ m.offset ∧ m.offset < offset + Text.byteSize cs := by
  induction cs generalizing offset with
  | nil => simp [marks.go] at h
  | cons c cs ih =>
    have hsize := c.utf8Size_pos
    have hlater : m ∈ marks.go (offset + c.utf8Size) cs →
        offset ≤ m.offset ∧ m.offset < offset + Text.byteSize (c :: cs) := by
      intro hm
      have := ih hm
      rw [Text.byteSize_cons]
      omega
    have hhere : ∀ side, m = ⟨offset, side⟩ →
        offset ≤ m.offset ∧ m.offset < offset + Text.byteSize (c :: cs) := by
      rintro side rfl
      rw [Text.byteSize_cons]
      simp only
      omega
    rw [marks.go] at h
    split at h
    . cases List.mem_cons.mp h with
      | inl h => exact hhere _ h
      | inr h => exact hlater h
    . split at h
      . cases List.mem_cons.mp h with
        | inl h => exact hhere _ h
        | inr h => exact hlater h
      . exact hlater h

end Fragment

namespace Nesting

theorem ofMarks.go_forest (t : Forest) (offset : Nat) (frame : Frame) (frames : List Frame)
    (marks : List Mark) :
    go (frame :: frames) (Fragment.marks.go offset t.chars ++ marks)
      =
    go (⟨frame.opening, (t.groups offset).reverse ++ frame.inside⟩ :: frames) marks := by
  induction t generalizing offset frame frames marks with
  | nil => rfl
  | plain c hc rest ih =>
    rw [Forest.chars, Fragment.marks.go, if_neg hc.1, if_neg hc.2, ih]
    rfl
  | group inside rest ihInside ihRest =>
    have hopening : '('.utf8Size = 1 := by decide
    have hclosing : ')'.utf8Size = 1 := by decide
    have hmarks : Fragment.marks.go offset (Forest.group inside rest).chars
        =
      ⟨offset, .opening⟩ :: (Fragment.marks.go (offset + 1) inside.chars
        ++ ⟨offset + 1 + Text.byteSize inside.chars, .closing⟩
          :: Fragment.marks.go (offset + 1 + Text.byteSize inside.chars + 1) rest.chars) := by
      rw [Forest.chars, Fragment.marks.go, if_pos rfl, Fragment.marks_go_append, Fragment.marks.go,
        if_neg (by decide), if_pos rfl, hopening, hclosing]
    rw [hmarks, List.cons_append, List.append_assoc, List.cons_append, go, ihInside, go, ihRest]
    simp [Forest.groups]

theorem ofMarks.go_unclosed {cs : List Char}
    (h : ∀ (t : Forest) after, cs ≠ t.chars ++ ')' :: after) (offset : Nat) {frames : List Frame}
    {opening : Nat} (hframes : frames.getLast?.map Frame.opening = some opening) :
    go frames (Fragment.marks.go offset cs) = .error (.unclosed opening) := by
  -- The induction is on the parentheses that open no group: each of them is one frame more, but the
  -- outermost frame, which is the one that is blamed, stays.
  obtain ⟨t, rest, hcs, hrest⟩ := Forest.exists_maximal cs
  cases frames with
  | nil => simp at hframes
  | cons frame frames =>
    rw [hcs, Fragment.marks_go_append, go_forest]
    have hframes' : (Frame.mk frame.opening ((t.groups offset).reverse ++ frame.inside)
        :: frames).getLast?.map Frame.opening = some opening := by
      cases frames with
      | nil => simpa using hframes
      | cons => simpa [List.getLast?_cons_cons] using hframes
    rcases hrest with rfl | ⟨after, rfl⟩ | ⟨inside, rfl, hinside⟩
    . rw [Fragment.marks.go, go]
      split
      next last hlast =>
        rw [hlast] at hframes'
        simpa using hframes'
      next hlast => simp at hlast
    . exact absurd hcs (h t after)
    . rw [Fragment.marks.go, if_pos rfl, go]
      apply go_unclosed hinside
      simpa [List.getLast?_cons_cons] using hframes'
termination_by cs.length
decreasing_by
  have := congrArg List.length hcs
  simp at this
  omega

variable {f : Fragment} {front gap : List Char}

theorem first_of_append {cs : List Char} (h : f.chars = front ++ cs) :
    first f (f.start + Text.byteSize front)
      =
    ofMarks (Fragment.marks.go (f.start + Text.byteSize front) cs) := by
  rw [first, Fragment.marks, h, Fragment.marks_go_append, List.filter_append]
  have hfront : (Fragment.marks.go f.start front).filter
      (f.start + Text.byteSize front ≤ ·.offset) = [] := by
    rw [List.filter_eq_nil_iff]
    intro m hm
    have := Fragment.offset_of_mem_marks_go hm
    simp
    omega
  have hcs : (Fragment.marks.go (f.start + Text.byteSize front) cs).filter
      (f.start + Text.byteSize front ≤ ·.offset)
        =
      Fragment.marks.go (f.start + Text.byteSize front) cs := by
    rw [List.filter_eq_self]
    intro m hm
    have := Fragment.offset_of_mem_marks_go hm
    simp
    omega
  rw [hfront, hcs, List.nil_append]

theorem first_of_gap (hgap : Text.IsPlain gap) {cs : List Char}
    (h : f.chars = front ++ (gap ++ cs)) :
    first f (f.start + Text.byteSize front)
      =
    ofMarks (Fragment.marks.go (f.start + Text.byteSize front + Text.byteSize gap) cs) := by
  rw [first_of_append h, Fragment.marks_go_append, Fragment.marks_go_of_isPlain hgap,
    List.nil_append]

theorem first_of_enclosed (hgap : Text.IsPlain gap) {t : Forest} {rest : List Char}
    (h : f.chars = front ++ (gap ++ (t.enclosed ++ rest))) :
    first f (f.start + Text.byteSize front)
      =
    .ok (t.nesting (f.start + Text.byteSize front + Text.byteSize gap)) := by
  have hopening : '('.utf8Size = 1 := by decide
  have htext : t.enclosed ++ rest = '(' :: (t.chars ++ ')' :: rest) := by simp [Forest.enclosed]
  rw [first_of_gap hgap h, htext, Fragment.marks.go, if_pos rfl, ofMarks, ofMarks.go,
    Fragment.marks_go_append, ofMarks.go_forest, Fragment.marks.go, if_neg (by decide), if_pos rfl,
    ofMarks.go, hopening]
  simp [Forest.nesting]

theorem first_of_groupAt {offset : Nat} {t : Forest} (h : f.GroupAt offset t) :
    first f offset = .ok (t.nesting offset) := by
  obtain ⟨front, rest, hchars, rfl⟩ := h
  have hgap : f.chars = front ++ ([] ++ (t.enclosed ++ rest)) := hchars
  exact first_of_enclosed (by simp [Text.IsPlain]) hgap

theorem first_of_closing (hgap : Text.IsPlain gap) {rest : List Char}
    (h : f.chars = front ++ (gap ++ ')' :: rest)) :
    first f (f.start + Text.byteSize front)
      =
    .error (.unopened (f.start + Text.byteSize front + Text.byteSize gap)) := by
  rw [first_of_gap hgap h, Fragment.marks.go, if_neg (by decide), if_pos rfl, ofMarks, ofMarks.go]

theorem first_of_unclosed (hgap : Text.IsPlain gap) {inside : List Char}
    (h : f.chars = front ++ (gap ++ '(' :: inside))
    (hinside : ∀ (t : Forest) after, inside ≠ t.chars ++ ')' :: after) :
    first f (f.start + Text.byteSize front)
      =
    .error (.unclosed (f.start + Text.byteSize front + Text.byteSize gap)) := by
  rw [first_of_gap hgap h, Fragment.marks.go, if_pos rfl, ofMarks, ofMarks.go]
  apply ofMarks.go_unclosed hinside
  rfl

theorem first_cases {cs : List Char} (h : f.chars = front ++ cs) :
    ∃ gap rest, cs = gap ++ rest ∧ Text.IsPlain gap
      ∧ (first f (f.start + Text.byteSize front) = .error .noGroup
        ∨ (∃ after, rest = ')' :: after ∧ first f (f.start + Text.byteSize front)
          = .error (.unopened (f.start + Text.byteSize front + Text.byteSize gap)))
        ∨ (∃ inside, rest = '(' :: inside ∧ first f (f.start + Text.byteSize front)
          = .error (.unclosed (f.start + Text.byteSize front + Text.byteSize gap)))
        ∨ ∃ (t : Forest) (after : List Char), rest = t.enclosed ++ after
          ∧ first f (f.start + Text.byteSize front)
            = .ok (t.nesting (f.start + Text.byteSize front + Text.byteSize gap))) := by
  obtain ⟨gap, rest, rfl, hgap, hrest⟩ := Text.exists_gap cs
  refine ⟨gap, rest, rfl, hgap, ?_⟩
  cases rest with
  | nil =>
    left
    rw [first_of_gap hgap h, Fragment.marks.go, ofMarks, ofMarks.go]
    rfl
  | cons c rest =>
    right
    rcases hrest c rfl with rfl | rfl
    . by_cases hclosed : ∃ (t : Forest) (after : List Char), rest = t.chars ++ ')' :: after
      . obtain ⟨t, after, rfl⟩ := hclosed
        have hgroup : f.chars = front ++ (gap ++ (t.enclosed ++ after)) := by
          simp [h, Forest.enclosed]
        exact .inr (.inr ⟨t, after, by simp [Forest.enclosed], first_of_enclosed hgap hgroup⟩)
      . refine .inr (.inl ⟨rest, rfl, first_of_unclosed hgap h ?_⟩)
        intro t after hrest
        exact hclosed ⟨t, after, hrest⟩
    . exact .inl ⟨rest, rfl, first_of_closing hgap h⟩

end Nesting
end PddlOutline
