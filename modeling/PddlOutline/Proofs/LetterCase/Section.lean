import PddlOutline.Proofs.LetterCase.Text
import PddlOutline.Proofs.Text.Runs
import PddlOutline.Proofs.TokenLists
import PddlOutline.Reading.Section

/-!
This module contains what is read from a section whose letters are put in lower case: the section is
found in the same place and everything in it is read as before, in lower case.
-/

namespace PddlOutline

def Fragment.lower (f : Fragment) : Fragment :=
  ⟨f.start, Text.lower f.chars⟩

def Token.lower (t : Token) : Token :=
  ⟨t.symbol.toLower, t.span⟩

namespace Token

theorem isSeparator_lower (t : Token) : t.lower.isSeparator = t.isSeparator := by
  show (t.symbol.toLower == String.ofList ['-']) = (t.symbol == String.ofList ['-'])
  rw [Bool.eq_iff_iff, beq_iff_eq, beq_iff_eq, ← String.toList_inj, ← String.toList_inj,
    Text.toList_toLower, String.toList_ofList]
  exact Text.lower_eq_singleton_iff (by decide)

theorem isVariable_lower (t : Token) : t.lower.isVariable = t.isVariable := by
  show (t.symbol.toLower.toList.head? == some '?') = _
  rw [Text.toList_toLower, Text.head?_lower_beq (by decide)]
  rfl

end Token

def Relabeling.lowering : Relabeling where
  token := Token.lower
  symbol := String.toLower
  error := id
  symbol_token _ := rfl
  isSeparator_token := Token.isSeparator_lower
  isVariable_token := Token.isVariable_lower
  error_malformed _ _ := rfl

theorem TypedList.form_ofTokens_lower (tokens : List Token) :
    (ofTokens (tokens.map Token.lower)).map form = (ofTokens tokens).map form := by
  have h := form_ofTokens_relabel .lowering tokens
  rwa [show Relabeling.lowering.error = id from rfl, Outcome.mapError_id] at h

def Section.lower (s : Section) : Section :=
  { s with fragment := s.fragment.lower }

namespace Text

theorem runs_go_lower (offset : Nat) (cs : List Char) :
    Fragment.runs.go offset (lower cs) = (Fragment.runs.go offset cs).map Fragment.lower := by
  induction cs using Fragment.runs.cases generalizing offset with
  | nil => rw [lower_nil, Fragment.runs.go, List.map_nil]
  | blank c cs hc ih =>
    have hc' : isBlank c.toLower := by rwa [isBlank_toLower]
    rw [lower_cons, Fragment.runs.go_blank hc', Fragment.runs.go_blank hc, utf8Size_toLower, ih]
  | word word rest hne hword hrest ih =>
    have hne' : lower word ≠ [] := by simpa [lower] using hne
    have hword' : ∀ c ∈ lower word, ¬ isBlank c := by
      simpa [lower] using hword
    have hrest' : ∀ c ∈ (lower rest).head?, isBlank c := by
      cases rest with
      | nil => simp
      | cons c rest => simpa using hrest
    rw [lower_append, Fragment.runs.go_word hne' hword' hrest',
      Fragment.runs.go_word hne hword hrest, List.map_cons, byteSize_lower, ih]
    rfl

theorem words_lower (cs : List Char) : words (lower cs) = (words cs).map lower := by
  have hruns : (Fragment.whole (lower cs)).runs = (Fragment.whole cs).runs.map Fragment.lower :=
    runs_go_lower 0 cs
  rw [words, words, hruns, List.map_map, List.map_map]
  rfl

theorem isAtom_toLower (c : Char) : isAtom c.toLower = isAtom c := by
  have hopening : (c.toLower != '(') = (c != '(') := congrArg (!·) (toLower_beq (by decide) c)
  have hclosing : (c.toLower != ')') = (c != ')') := congrArg (!·) (toLower_beq (by decide) c)
  rw [isAtom, isAtom, isBlank_toLower, hopening, hclosing]

theorem leadingName?_group (inside : List Char) :
    leadingName? ('(' :: lower inside) = (leadingName? ('(' :: inside)).map lower := by
  rw [leadingName?, leadingName?, trimStart_lower, takeWhile_lower isAtom_toLower]
  simp only [isEmpty_lower]
  split
  . rfl
  . rfl

theorem isConjunction_of_ne {c : Char} (hc : c ≠ '(') (cs : List Char) :
    isConjunction (c :: cs) = false := by
  unfold isConjunction leadingName?
  split
  next heq =>
    split at heq
    next hcons => exact absurd (List.cons.inj hcons).1 hc
    next => cases heq
  next =>
    split
    next hcons => exact absurd (List.cons.inj hcons).1 hc
    next => rfl

theorem isConjunction_lower (cs : List Char) : isConjunction (lower cs) = isConjunction cs := by
  cases cs with
  | nil => rfl
  | cons c inside =>
    by_cases hc : c = '('
    . subst hc
      have hclosing : ((trimStart (lower inside)).head? == some ')')
          = ((trimStart inside).head? == some ')') := by
        rw [trimStart_lower, head?_lower_beq (by decide)]
      show isConjunction ('(' :: lower inside) = _
      rw [isConjunction, isConjunction, leadingName?_group]
      cases leadingName? ('(' :: inside) with
      | none => exact hclosing
      | some name =>
        show (lower (lower name) == _) = _
        rw [lower_lower]
        rfl
    . have hc' : c.toLower ≠ '(' := fun h => hc ((toLower_eq_iff (by decide)).mp h)
      rw [isConjunction_of_ne hc]
      exact isConjunction_of_ne hc' _

end Text

namespace Fragment

variable (f : Fragment)

@[simp]
theorem lower_start : f.lower.start = f.start := rfl

@[simp]
theorem lower_chars : f.lower.chars = Text.lower f.chars := rfl

@[simp]
theorem span_lower : f.lower.span = f.span := by
  rw [span, span, stop, stop, lower_chars, Text.byteSize_lower]
  rfl

theorem text_lower : f.lower.text = f.text.toLower :=
  Text.ofList_lower f.chars

theorem slice?_lower (span : Span) : f.lower.slice? span = (f.slice? span).map lower := by
  unfold slice?
  rw [lower_start, lower_chars, Text.slice?_lower]
  split
  . rw [Option.map_map, Option.map_map]
    rfl
  . rfl

theorem slice_lower (span : Span) : f.lower.slice span = (f.slice span).map lower := by
  rw [slice, slice, slice?_lower]
  cases f.slice? span with
  | none => rfl
  | some part => rfl

theorem tokens_lower : f.lower.tokens = f.tokens.map Token.lower := by
  have htoken : Token.ofFragment ∘ lower = Token.lower ∘ Token.ofFragment := by
    funext r
    rw [Function.comp, Function.comp, Token.ofFragment, Token.ofFragment, Token.lower, text_lower,
      span_lower]
  rw [tokens, tokens, runs, runs, lower_chars, Text.runs_go_lower, List.map_map, List.map_map,
    htoken, lower_start]

theorem places_lower (k : Keyword) : f.lower.places k = f.places k :=
  Text.occurrences_lower k.chars f.start f.chars

theorem marks_go_lower (offset : Nat) (cs : List Char) :
    marks.go offset (Text.lower cs) = marks.go offset cs := by
  have hopening (c : Char) : c.toLower = '(' ↔ c = '(' := Text.toLower_eq_iff (by decide)
  have hclosing (c : Char) : c.toLower = ')' ↔ c = ')' := Text.toLower_eq_iff (by decide)
  induction cs generalizing offset with
  | nil => rfl
  | cons c cs ih =>
    rw [Text.lower_cons, marks.go, marks.go]
    simp only [hopening, hclosing, Text.utf8Size_toLower, ih]

theorem marks_lower : f.lower.marks = f.marks :=
  marks_go_lower f.start f.chars

theorem unwrap_lower (gs : List Group) : f.lower.unwrap gs = f.unwrap gs := by
  cases gs with
  | nil => rfl
  | cons g gs =>
    rw [unwrap, unwrap, slice_lower]
    cases f.slice g.span with
    | error e => rfl
    | ok expr =>
      show Except.ok (if Text.isConjunction (Text.lower expr.chars) then _ else _) = _
      rw [Text.isConjunction_lower]
      rfl

theorem slices_lower (gs : List Group) :
    f.lower.slices gs = (f.slices gs).map (List.map lower) := by
  rw [slices, slices]
  induction gs with
  | nil => rfl
  | cons g gs ih =>
    rw [List.mapM_cons, List.mapM_cons, ih, slice_lower]
    apply Outcome.map_bind_eq
    intro part
    exact Outcome.map_bind_eq fun parts => rfl

theorem expressions_lower (candidates : List Group) :
    f.lower.expressions candidates = (f.expressions candidates).map (List.map lower) := by
  rw [expressions, expressions, unwrap_lower]
  cases f.unwrap (Group.sort candidates) with
  | error e => rfl
  | ok kept => exact f.slices_lower (Group.outermost kept)

theorem map_text_lower (fs : List Fragment) :
    (fs.map lower).map text = (fs.map text).map String.toLower := by
  rw [List.map_map, List.map_map]
  exact List.map_congr_left fun f _ => f.text_lower

end Fragment

namespace Nesting

theorem first_lower (f : Fragment) (start : Nat) : first f.lower start = first f start := by
  rw [first, first, Fragment.marks_lower]

end Nesting

namespace Section

variable (s : Section) (f : Fragment) (k : Keyword)

theorem delimit_lower (offset : Nat) : delimit f.lower k offset = delimit f k offset := by
  rw [delimit, delimit, Nesting.first_lower]

theorem checkValue_lower (offset : Nat) (nesting : Nesting) :
    checkValue f.lower k offset nesting = checkValue f k offset nesting := by
  unfold checkValue
  simp only [Fragment.slice_lower]
  cases f.slice ⟨offset + k.size, nesting.outer.opening⟩ with
  | error e => rfl
  | ok gap =>
    show (if Text.allBlank (Text.lower gap.chars) then _ else _) = _
    rw [Text.allBlank_lower]
    rfl

theorem first_lower : first f.lower k = (first f k).map (Option.map lower) := by
  rw [first, first, Fragment.lower_chars, Fragment.lower_start, Text.occurrences_lower]
  cases (Text.occurrences k.chars f.start f.chars).head? with
  | none => rfl
  | some offset =>
    simp only [delimit_lower, checkValue_lower]
    cases delimit f k offset with
    | error e => rfl
    | ok nesting =>
      simp only [bind, Except.bind, pure, Except.pure]
      split
      . cases checkValue f k offset nesting with
        | error e => rfl
        | ok _ => rfl
      . rfl

theorem readD_lower {α β γ : Type} {absent : α} {absent' : β} {g : α → γ} {g' : β → γ}
    {read : Section → Except ReadError α} {read' : Section → Except ReadError β}
    (habsent : g absent = g' absent') (hread : ∀ s, (read s.lower).map g = (read' s).map g') :
    (readD f.lower k absent read).map g = (readD f k absent' read').map g' := by
  rw [readD, readD, first_lower]
  cases first f k with
  | error e => rfl
  | ok found =>
    cases found with
    | none => exact congrArg Except.ok habsent
    | some s => exact hread s

theorem readD_texts_lower {read : Section → Except ReadError (List String)}
    (hread : ∀ s, read s.lower = (read s).map (List.map String.toLower)) :
    readD f.lower k [] read = (readD f k [] read).map (List.map String.toLower) := by
  have h : (readD f.lower k [] read).map id = (readD f k [] read).map (List.map String.toLower) :=
    readD_lower f k rfl (by simpa using hread)
  rwa [Except.map_id] at h

theorem tokens_lower : s.lower.tokens = s.tokens.map (List.map Token.lower) := by
  unfold tokens
  show (s.fragment.lower.slice s.nesting.outer.inside >>= _) = _
  rw [Fragment.slice_lower]
  apply Outcome.map_bind_eq
  intro inside
  have hkeyword : s.lower.keyword = s.keyword := rfl
  rw [Fragment.tokens_lower, hkeyword]
  cases s.keyword.form with
  | block => exact congrArg Except.ok List.map_drop.symm
  | value => rfl

theorem expressions_lower :
    s.lower.expressions = s.expressions.map (List.map String.toLower) := by
  unfold expressions
  show (s.fragment.lower.expressions _ >>= _) = _
  rw [Fragment.expressions_lower]
  exact Outcome.map_bind_eq fun found => congrArg Except.ok (Fragment.map_text_lower found)

theorem parts_lower : s.lower.parts = s.parts.map (List.map String.toLower) := by
  unfold parts
  show (s.fragment.lower.slices _ >>= _) = _
  rw [Fragment.slices_lower]
  exact Outcome.map_bind_eq fun found => congrArg Except.ok (Fragment.map_text_lower found)

theorem form_typedList_lower :
    s.lower.typedList.map TypedList.form = s.typedList.map TypedList.form := by
  unfold typedList
  rw [tokens_lower]
  cases s.tokens with
  | error e => rfl
  | ok tokens => exact TypedList.form_ofTokens_lower tokens

theorem symbols_lower :
    (do return (← s.lower.tokens).map Token.symbol)
      =
    (do return (← s.tokens).map Token.symbol : Except ReadError (List String)).map
      (List.map String.toLower) := by
  rw [tokens_lower]
  apply Outcome.map_bind_eq
  intro tokens
  simp [pure, Except.pure, Except.map, Token.lower]

end Section
end PddlOutline
