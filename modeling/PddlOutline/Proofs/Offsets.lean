import PddlOutline.Proofs.Keyword
import PddlOutline.Proofs.Outcome
import PddlOutline.Reading.Section

/-!
This module contains what becomes of a text that starts elsewhere: whatever is found in it is found
as many bytes further on, and nothing else changes. So a search in a part of a text is the search in
this part as a text of its own.
-/

namespace PddlOutline

namespace Outcome

variable {ε δ ε' δ' α β γ : Type}

def bimap (g : α → β) (h : ε → δ) : Except ε α → Except δ β
  | .ok a => .ok (g a)
  | .error e => .error (h e)

/--
What passes through both steps of a computation passes through the computation.
-/
theorem bimap_bind {g : α → β} {g' : γ → δ'} {h : ε → δ} {x : Except ε α} {f : α → Except ε γ}
    {f' : β → Except δ δ'} (hff : ∀ a, f' (g a) = bimap g' h (f a)) :
    bimap g h x >>= f' = bimap g' h (x >>= f) := by
  cases x with
  | ok a => exact hff a
  | error e => rfl

end Outcome

def Span.shift (n : Nat) (span : Span) : Span :=
  ⟨span.start + n, span.stop + n⟩

theorem Span.mk_add (n offset size : Nat) :
    Span.mk (offset + n) (offset + n + size) = Span.shift n ⟨offset, offset + size⟩ := by
  rw [shift, Nat.add_right_comm]

def Fragment.shift (n : Nat) (f : Fragment) : Fragment :=
  ⟨f.start + n, f.chars⟩

def Group.shift (n : Nat) (g : Group) : Group :=
  ⟨g.opening + n, g.closing + n⟩

def Mark.shift (n : Nat) (m : Mark) : Mark :=
  ⟨m.offset + n, m.side⟩

def Nesting.shift (n : Nat) (b : Nesting) : Nesting :=
  ⟨b.outer.shift n, b.inner.map (Group.shift n)⟩

def NestingError.shift (n : Nat) : NestingError → NestingError
  | .unopened offset => .unopened (offset + n)
  | .unclosed offset => .unclosed (offset + n)
  | .noGroup => .noGroup

def ReadError.shift (n : Nat) : ReadError → ReadError
  | .missingSection k span => .missingSection k (span.map (Span.shift n))
  | .malformed reason span => .malformed reason (span.map (Span.shift n))
  | .outOfRange span => .outOfRange (span.shift n)

def Section.shift (n : Nat) (s : Section) : Section :=
  ⟨s.keyword, s.fragment.shift n, s.nesting.shift n⟩

variable {n : Nat}

theorem Text.occurrences_shift (word : List Char) (offset : Nat) (cs : List Char) :
    occurrences word (offset + n) cs = (occurrences word offset cs).map (· + n) := by
  induction cs generalizing offset with
  | nil => rfl
  | cons c cs ih =>
    rw [occurrences, occurrences, Nat.add_right_comm, ih]
    split
    . rfl
    . rfl

namespace Fragment

variable (f : Fragment)

theorem places_shift (k : Keyword) : (f.shift n).places k = (f.places k).map (· + n) :=
  Text.occurrences_shift k.chars f.start f.chars

theorem marks_go_shift (offset : Nat) (cs : List Char) :
    marks.go (offset + n) cs = (marks.go offset cs).map (Mark.shift n) := by
  induction cs generalizing offset with
  | nil => rfl
  | cons c cs ih =>
    rw [marks.go, marks.go, Nat.add_right_comm, ih]
    split
    . rfl
    . split
      . rfl
      . rfl

theorem marks_shift : (f.shift n).marks = f.marks.map (Mark.shift n) :=
  marks_go_shift f.start f.chars

theorem slice?_shift (span : Span) :
    (f.shift n).slice? (span.shift n) = (f.slice? span).map (shift n) := by
  simp only [slice?, shift, Span.shift, Nat.add_le_add_iff_right, Nat.add_sub_add_right]
  split
  . rw [Option.map_map]
    rfl
  . rfl

theorem slice_shift (span : Span) :
    (f.shift n).slice (span.shift n)
      = Outcome.bimap (shift n) (ReadError.shift n) (f.slice span) := by
  rw [slice, slice, slice?_shift]
  cases f.slice? span with
  | none => rfl
  | some part => rfl

end Fragment

namespace Nesting

def Frame.shift (n : Nat) (frame : Frame) : Frame :=
  ⟨frame.opening + n, frame.inside.map (Group.shift n)⟩

theorem ofMarks.go_shift (frames : List Frame) (marks : List Mark) :
    go (frames.map (Frame.shift n)) (marks.map (Mark.shift n))
      =
    Outcome.bimap (Nesting.shift n) (NestingError.shift n) (go frames marks) := by
  induction marks generalizing frames with
  | nil =>
    simp only [List.map_nil, go, List.getLast?_map]
    cases frames.getLast? with
    | none => rfl
    | some frame => rfl
  | cons m marks ih =>
    obtain ⟨offset, side⟩ := m
    cases side with
    | opening => exact ih (⟨offset, []⟩ :: frames)
    | closing =>
      match frames with
      | [] => rfl
      | [frame] =>
        simp only [List.map_cons, List.map_nil, go, Mark.shift, Frame.shift, Outcome.bimap,
          Nesting.shift, Group.shift, List.map_reverse]
      | frame :: ⟨opening, inside⟩ :: frames =>
        have hclosed := ih (⟨opening, frame.inside ++ ⟨frame.opening, offset⟩ :: inside⟩ :: frames)
        simp only [List.map_cons, Frame.shift, List.map_append] at hclosed
        exact hclosed

theorem first_shift (f : Fragment) (start : Nat) :
    first (f.shift n) (start + n)
      =
    Outcome.bimap (Nesting.shift n) (NestingError.shift n) (first f start) := by
  rw [first, first, f.marks_shift, List.filter_map]
  have hsame : (fun m : Mark => decide (start + n ≤ m.offset)) ∘ Mark.shift n
      = fun m => decide (start ≤ m.offset) := by
    funext m
    simp [Mark.shift]
  rw [hsame]
  exact ofMarks.go_shift [] _

end Nesting

namespace Section

variable (f : Fragment) (k : Keyword)

theorem delimit_shift (offset : Nat) :
    delimit (f.shift n) k (offset + n)
      =
    Outcome.bimap (Nesting.shift n) (ReadError.shift n) (delimit f k offset) := by
  rw [delimit, delimit, Nesting.first_shift]
  cases Nesting.first f offset with
  | ok b => rfl
  | error e =>
    cases e <;> simp only [Outcome.bimap, NestingError.shift, ReadError.shift, Option.map,
      Span.mk_add]

theorem checkValue_shift (offset : Nat) (b : Nesting) :
    checkValue (f.shift n) k (offset + n) (b.shift n)
      =
    Outcome.bimap id (ReadError.shift n) (checkValue f k offset b) := by
  have hgap : Span.mk (offset + n + k.size) (b.shift n).outer.opening
      = Span.shift n ⟨offset + k.size, b.outer.opening⟩ := by
    rw [Span.shift, Nat.add_right_comm]
    rfl
  rw [checkValue, checkValue]
  simp only [Span.mk_add, hgap, Fragment.slice_shift]
  apply Outcome.bimap_bind
  intro gap
  show (if Text.allBlank gap.chars then _ else _) = Outcome.bimap _ _ (if _ then _ else _)
  split
  . rfl
  . rfl

/--
A search answers the same wherever the text starts, up to the offsets in the answer.
-/
theorem first_shift :
    first (f.shift n) k
      =
    Outcome.bimap (Option.map (shift n)) (ReadError.shift n) (first f k) := by
  rw [first, first, ← Fragment.places, ← Fragment.places, f.places_shift, List.head?_map]
  cases (f.places k).head? with
  | none => rfl
  | some offset =>
    simp only [Option.map_some, delimit_shift]
    apply Outcome.bimap_bind
    intro b
    split
    . rw [checkValue_shift]
      exact Outcome.bimap_bind fun _ => rfl
    . rfl

end Section
end PddlOutline
