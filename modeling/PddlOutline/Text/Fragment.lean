import PddlOutline.Text.Basic

/-!
This module contains fragments: parts of a text that know at which byte offset they start, so that
what is found in them can be located in the text as a whole.
-/

namespace PddlOutline

/--
Byte offsets of a part of a text, from `start` up to `stop`, which does not belong to it.
-/
structure Span where
  start : Nat
  stop : Nat
deriving Repr, DecidableEq

namespace Span

def size (span : Span) : Nat :=
  span.stop - span.start

end Span

structure Fragment where
  start : Nat
  chars : List Char
deriving Repr, DecidableEq

namespace Fragment

def whole (cs : List Char) : Fragment :=
  ⟨0, cs⟩

def stop (f : Fragment) : Nat :=
  f.start + Text.byteSize f.chars

def span (f : Fragment) : Span :=
  ⟨f.start, f.stop⟩

def text (f : Fragment) : String :=
  String.ofList f.chars

@[simp]
theorem span_start (f : Fragment) : f.span.start = f.start := rfl

@[simp]
theorem span_stop (f : Fragment) : f.span.stop = f.stop := rfl

/--
The part of a fragment that a span covers. The span counts from the start of the text of which `f`
is a part.
-/
def slice? (f : Fragment) (span : Span) : Option Fragment :=
  if f.start ≤ span.start ∧ span.start ≤ span.stop then
    (Text.slice? f.chars (span.start - f.start) (span.stop - f.start)).map (⟨span.start, ·⟩)
  else
    none

theorem slice?_eq_some_iff {f g : Fragment} {span : Span} :
    f.slice? span = some g ↔
      g.span = span ∧ ∃ front rest, f.chars = front ++ g.chars ++ rest
        ∧ f.start + Text.byteSize front = g.start := by
  cases g with
  | mk start chars =>
    cases span with
    | mk first last =>
      simp only [slice?, Fragment.span, stop, Span.mk.injEq]
      constructor
      . intro h
        split at h
        next hle =>
          simp only [Option.map_eq_some_iff, Text.slice?_eq_some_iff, mk.injEq] at h
          obtain ⟨_, ⟨front, rest, hcs, hfront, hstop⟩, rfl, rfl⟩ := h
          exact ⟨⟨rfl, by omega⟩, front, rest, hcs, by omega⟩
        next => simp at h
      . rintro ⟨⟨rfl, rfl⟩, front, rest, hcs, hstart⟩
        rw [if_pos (by omega)]
        simp only [Option.map_eq_some_iff, Text.slice?_eq_some_iff, mk.injEq]
        exact ⟨chars, ⟨front, rest, hcs, by omega, by omega⟩, by simp⟩

theorem slice?_span {f g : Fragment} {span : Span} (h : f.slice? span = some g) :
    g.span = span :=
  (slice?_eq_some_iff.mp h).1

/--
The maximal runs of characters that are not blank, in order.
-/
def runs (f : Fragment) : List Fragment :=
  go f.start f.chars
where
  go (offset : Nat) (cs : List Char) : List Fragment :=
    match cs with
    | [] => []
    | c :: cs =>
      if Text.isBlank c then
        go (offset + c.utf8Size) cs
      else
        let run := c :: cs.takeWhile (!Text.isBlank ·)
        ⟨offset, run⟩ :: go (offset + Text.byteSize run) (cs.dropWhile (!Text.isBlank ·))
  termination_by cs.length
  decreasing_by
    . simp
    . have := Text.length_dropWhile_le (!Text.isBlank ·) cs
      simp only [List.length_cons]
      omega

end Fragment

namespace Text

def words (cs : List Char) : List (List Char) :=
  (Fragment.whole cs).runs.map Fragment.chars

end Text
end PddlOutline
