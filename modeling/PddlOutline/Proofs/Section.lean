import PddlOutline.Proofs.Expressions
import PddlOutline.Proofs.Keyword
import PddlOutline.Proofs.Nesting.Matching
import PddlOutline.Proofs.TokenLists
import PddlOutline.Reading.Section

/-!
This module contains what the search for a section answers and what is read from a section that was
found. All of it is said in terms of the forest in the group of the section, so it depends on
nothing but the text of this group.
-/

namespace PddlOutline

namespace Keyword.Form

/--
The words in the group of a section.
-/
def words : Form → Forest → List (List Char)
  | .block, t => (Text.words t.chars).drop 1
  | .value, t => Text.words t.chars

/--
The forests from which the expressions of a section are taken.
-/
def trees : Form → Forest → List Forest
  | .block, t => t.trees
  | .value, t => [t]

/--
The expressions of a section whose group opens at `opening`.
-/
def expressions (opening : Nat) : Form → Forest → List Fragment
  | .block, t => t.unwrapped (opening + 1)
  | .value, t => (Forest.group t .nil).unwrapped opening

theorem expressions_map_chars (opening : Nat) (form : Form) (t : Forest) :
    (form.expressions opening t).map Fragment.chars
      =
    (Forest.conjuncts (form.trees t)).map Forest.enclosed := by
  cases form with
  | block => apply Forest.unwrapped_map_chars
  | value => exact Forest.unwrapped_map_chars opening (.group t .nil)

end Keyword.Form

namespace Section

/--
Whether the group of a section holds the forest `t`.
-/
def Holds (s : Section) (t : Forest) : Prop :=
  s.fragment.GroupAt s.nesting.outer.opening t ∧ s.nesting = t.nesting s.nesting.outer.opening

theorem holds_of_groupAt {f : Fragment} {offset : Nat} {t : Forest} (h : f.GroupAt offset t)
    (k : Keyword) : (Section.mk k f (t.nesting offset)).Holds t :=
  ⟨h, rfl⟩

/-! What is read from a section. -/

section Reading

variable {s : Section} {t : Forest}

theorem Holds.exists_inside (h : s.Holds t) :
    ∃ front rest, s.fragment.chars = front ++ (t.chars ++ rest)
      ∧ s.fragment.start + Text.byteSize front = s.nesting.outer.opening + 1 := by
  obtain ⟨⟨front, rest, hchars, hopening⟩, _⟩ := h
  refine ⟨front ++ ['('], ')' :: rest, ?_, ?_⟩
  . simp [hchars, Forest.enclosed]
  . rw [hopening, Text.byteSize_append, ← Nat.add_assoc]
    rfl

theorem Holds.slice_inside (h : s.Holds t) :
    s.fragment.slice s.nesting.outer.inside = .ok ⟨s.nesting.outer.opening + 1, t.chars⟩ := by
  obtain ⟨front, rest, hchars, hstart⟩ := h.exists_inside
  have hslice := Fragment.slice_of_append hchars
  rw [hstart] at hslice
  rw [h.2]
  exact hslice

theorem Holds.exists_tokens (h : s.Holds t) :
    ∃ tokens, s.tokens = .ok tokens
      ∧ tokens.map Token.unlocated = (s.keyword.form.words t).map Token.ofChars
      ∧ ∀ token ∈ tokens, ∃ r, token = .ofFragment r
        ∧ (Fragment.mk (s.nesting.outer.opening + 1) t.chars).IsRun r := by
  have hwords := Fragment.map_unlocated_tokens ⟨s.nesting.outer.opening + 1, t.chars⟩
  have hruns : ∀ token ∈ (Fragment.mk (s.nesting.outer.opening + 1) t.chars).tokens,
      ∃ r, token = .ofFragment r
        ∧ (Fragment.mk (s.nesting.outer.opening + 1) t.chars).IsRun r := by
    intro token htoken
    obtain ⟨r, hr, htoken⟩ := List.mem_map.mp htoken
    exact ⟨r, htoken.symm, Fragment.isRun_of_mem_runs hr⟩
  rw [tokens, h.slice_inside]
  cases hform : s.keyword.form with
  | block =>
    refine ⟨_, rfl, ?_, fun token htoken => hruns token (List.mem_of_mem_drop htoken)⟩
    rw [List.map_drop, hwords, ← List.map_drop]
    rfl
  | value => exact ⟨_, rfl, hwords, hruns⟩

theorem Holds.typedList_eq (h : s.Holds t) :
    s.typedList.mapError ReadError.unlocated
      =
    TypedList.ofTokens ((s.keyword.form.words t).map Token.ofChars) := by
  obtain ⟨tokens, htokens, hwords, _⟩ := h.exists_tokens
  rw [← hwords, TypedList.ofTokens_unlocated, typedList, htokens]
  rfl

theorem Holds.parameters_eq (h : s.Holds t) :
    (s.tokens >>= Parameters.ofTokens).mapError ReadError.unlocated
      =
    Parameters.ofTokens ((s.keyword.form.words t).map Token.ofChars) := by
  obtain ⟨tokens, htokens, hwords, _⟩ := h.exists_tokens
  rw [← hwords, Parameters.ofTokens_unlocated, htokens]
  rfl

theorem Holds.symbols_eq (h : s.Holds t) :
    s.tokens.map (·.map Token.symbol) = .ok ((s.keyword.form.words t).map String.ofList) := by
  obtain ⟨tokens, htokens, hwords, _⟩ := h.exists_tokens
  have hsymbols : tokens.map Token.symbol
      = (tokens.map Token.unlocated).map Token.symbol := by
    rw [List.map_map]
    rfl
  rw [htokens, Except.map, hsymbols, hwords, List.map_map]
  rfl

theorem map_text_of_map_chars {fs : List Fragment} {ts : List Forest}
    (h : fs.map Fragment.chars = ts.map Forest.enclosed) :
    fs.map Fragment.text = ts.map fun u => String.ofList u.enclosed := by
  have htexts := congrArg (List.map String.ofList) h
  rw [List.map_map, List.map_map] at htexts
  exact htexts

theorem Holds.expressions_fragments (h : s.Holds t) :
    s.expressions
      =
    .ok ((s.keyword.form.expressions s.nesting.outer.opening t).map Fragment.text) := by
  unfold expressions
  cases hform : s.keyword.form with
  | block =>
    -- The parentheses of the section itself are not among the expressions.
    obtain ⟨front, rest, hchars, hstart⟩ := h.exists_inside
    have hfound := Fragment.expressions_groups hchars
    rw [hstart] at hfound
    rw [h.2]
    show (s.fragment.expressions (t.groups _) >>= _) = _
    rw [hfound]
    rfl
  | value =>
    obtain ⟨front, rest, hchars, hopening⟩ := h.1
    rw [h.2, hopening]
    show (s.fragment.expressions (t.nesting _).groups >>= _) = _
    rw [Fragment.expressions_nesting hchars]
    rfl

theorem Holds.expressions_eq (h : s.Holds t) :
    s.expressions
      =
    .ok ((Forest.conjuncts (s.keyword.form.trees t)).map fun u => String.ofList u.enclosed) := by
  rw [h.expressions_fragments]
  apply congrArg Except.ok
  apply map_text_of_map_chars
  apply Keyword.Form.expressions_map_chars

theorem Holds.parts_fragments (h : s.Holds t) :
    s.parts = .ok ((t.fragments (s.nesting.outer.opening + 1)).map Fragment.text) := by
  obtain ⟨front, rest, hchars, hstart⟩ := h.exists_inside
  have hfound := Fragment.slices_roots hchars
  rw [hstart] at hfound
  rw [parts, h.2]
  show (s.fragment.slices (Group.outermost (t.groups _)) >>= _) = _
  rw [Group.outermost_groups, hfound]
  rfl

theorem Holds.parts_eq (h : s.Holds t) :
    s.parts = .ok (t.trees.map fun u => String.ofList u.enclosed) := by
  rw [h.parts_fragments]
  apply congrArg Except.ok
  apply map_text_of_map_chars
  apply Forest.fragments_map_chars

end Reading

/-! How a section is found. -/

section Search

variable {f : Fragment} {k : Keyword} {offset : Nat}

theorem delimit_of_groupAt {t : Forest} (h : f.GroupAt offset t) :
    delimit f k offset = .ok (t.nesting offset) := by
  rw [delimit, Nesting.first_of_groupAt h]

theorem delimit_of_forall_not_groupAt (hk : k.form = .block)
    (ho : offset ∈ Text.occurrences k.chars f.start f.chars) (h : ∀ t, ¬ f.GroupAt offset t) :
    delimit f k offset = .error (.malformed .unclosed (some ⟨offset, offset + 1⟩)) := by
  obtain ⟨front, tag, rest, hchars, htag, rfl⟩ := Fragment.mem_places.mp ho
  obtain ⟨tag, rfl⟩ := htag.eq_cons hk
  have hgap : f.chars = front ++ ([] ++ '(' :: (tag ++ rest)) := hchars
  rw [delimit, Nesting.first_of_unclosed (by simp [Text.IsPlain]) hgap]
  . rfl
  . intro t after hclosed
    apply h t
    exact ⟨front, after, by simp [hchars, hclosed, Forest.enclosed], rfl⟩

theorem first_of_nil (h : Text.occurrences k.chars f.start f.chars = []) :
    first f k = .ok none := by
  rw [first, h]
  rfl

theorem first_of_delimit_error {e : ReadError} (ho : (f.places k).head? = some offset)
    (h : delimit f k offset = .error e) : first f k = .error e := by
  rw [first, ← Fragment.places, ho]
  simp only
  rw [h]
  rfl

theorem first_of_delimit_ok {nesting : Nesting} (ho : (f.places k).head? = some offset)
    (h : delimit f k offset = .ok nesting) :
    first f k = match k.form with
      | .block => .ok (some ⟨k, f, nesting⟩)
      | .value => (checkValue f k offset nesting).map fun _ => some ⟨k, f, nesting⟩ := by
  rw [first, ← Fragment.places, ho]
  simp only
  rw [h]
  cases hk : k.form with
  | block => rfl
  | value =>
    show (checkValue f k offset nesting >>= fun _ => _) = _
    cases checkValue f k offset nesting with
    | error e => rfl
    | ok _ => rfl

theorem first_of_groupAt (hk : k.form = .block) (ho : (f.places k).head? = some offset)
    {t : Forest} (h : f.GroupAt offset t) : first f k = .ok (some ⟨k, f, t.nesting offset⟩) := by
  rw [first_of_delimit_ok ho (delimit_of_groupAt h), hk]

theorem first_of_forall_not_groupAt (hk : k.form = .block)
    (ho : (f.places k).head? = some offset) (h : ∀ t, ¬ f.GroupAt offset t) :
    first f k = .error (.malformed .unclosed (some ⟨offset, offset + 1⟩)) :=
  first_of_delimit_error ho (delimit_of_forall_not_groupAt hk (List.mem_of_mem_head? ho) h)

variable {front tag gap rest : List Char}

theorem first_value_of_closing (htag : k.Tag tag) (hk : k.form = .value) (hgap : Text.IsPlain gap)
    (h : f.chars = front ++ (tag ++ (gap ++ ')' :: rest)))
    (ho : (f.places k).head? = some (f.start + Text.byteSize front)) :
    first f k = .error (.malformed .unopened (some ⟨f.start + Text.byteSize (front ++ (tag ++ gap)),
      f.start + Text.byteSize (front ++ (tag ++ gap)) + 1⟩)) := by
  have hscan : f.chars = front ++ ((tag ++ gap) ++ ')' :: rest) := by simp [h]
  apply first_of_delimit_error ho
  rw [delimit, Nesting.first_of_closing ((htag.isPlain hk).append hgap) hscan,
    Text.byteSize_append front, ← Nat.add_assoc]

theorem checkValue_of_slice {nesting : Nesting} {part : Fragment}
    (h : f.slice ⟨offset + k.size, nesting.outer.opening⟩ = .ok part) :
    checkValue f k offset nesting = if Text.allBlank part.chars then
      .ok ()
    else
      .error (.malformed (.missingValue k) (some ⟨offset, offset + k.size⟩)) := by
  rw [checkValue]
  simp only [h]
  rfl

theorem first_value_of_enclosed {t : Forest} (htag : k.Tag tag) (hk : k.form = .value)
    (hgap : Text.IsPlain gap) (h : f.chars = front ++ (tag ++ (gap ++ (t.enclosed ++ rest))))
    (ho : (f.places k).head? = some (f.start + Text.byteSize front)) :
    first f k = if Text.allBlank gap then
      .ok (some ⟨k, f, t.nesting (f.start + Text.byteSize (front ++ (tag ++ gap)))⟩)
    else
      .error (.malformed (.missingValue k) (some ⟨f.start + Text.byteSize front,
        f.start + Text.byteSize front + k.size⟩)) := by
  have hscan : f.chars = front ++ ((tag ++ gap) ++ (t.enclosed ++ rest)) := by simp [h]
  have hopening : f.start + Text.byteSize front + Text.byteSize (tag ++ gap)
      = f.start + Text.byteSize (front ++ (tag ++ gap)) := by
    rw [Text.byteSize_append front, Nat.add_assoc]
  have hdelimit : delimit f k (f.start + Text.byteSize front)
      = .ok (t.nesting (f.start + Text.byteSize (front ++ (tag ++ gap)))) := by
    rw [delimit, Nesting.first_of_enclosed ((htag.isPlain hk).append hgap) hscan, hopening]
  have hbehind : f.chars = (front ++ tag) ++ (gap ++ (t.enclosed ++ rest)) := by simp [h]
  have hslice := Fragment.slice_of_append hbehind
  rw [Text.byteSize_append, htag.byteSize_eq, ← Nat.add_assoc] at hslice
  have hgap' : f.slice ⟨f.start + Text.byteSize front + k.size,
      (t.nesting (f.start + Text.byteSize (front ++ (tag ++ gap)))).outer.opening⟩
      = .ok ⟨f.start + Text.byteSize front + k.size, gap⟩ := by
    rw [← hslice, ← hopening, Text.byteSize_append, htag.byteSize_eq, ← Nat.add_assoc]
    rfl
  rw [first_of_delimit_ok ho hdelimit, hk]
  simp only [checkValue_of_slice hgap']
  split
  . rfl
  . rfl

end Search

/-! What a search in a single group answers, wherever the group starts. -/

section Inside

variable {k : Keyword}

theorem exists_cons_of_tag (hk : k.form = .value) {t : Forest} {front tag rest : List Char}
    (htag : k.Tag tag) (h : t.enclosed = front ++ (tag ++ rest)) :
    ∃ front', front = '(' :: front' := by
  cases front with
  | nil =>
    obtain ⟨c, tag, rfl⟩ := List.exists_cons_of_ne_nil htag.ne_nil
    have hc : '(' = c := (List.cons.inj h).1
    exact absurd hc.symm (htag.isPlain hk c List.mem_cons_self).1
  | cons c front => exact ⟨front, by rw [← (List.cons.inj h).1]⟩

theorem exists_value (hk : k.form = .value) {t : Forest} {front rest : List Char}
    (h : t.enclosed = front ++ rest) (hstart : Text.startsWith k.chars rest) :
    ∃ tag gap, k.Tag tag ∧ Text.IsPlain gap
      ∧ ((∃ after, t.enclosed = front ++ (tag ++ (gap ++ ')' :: after)))
        ∨ ∃ (u : Forest) (after : List Char),
          t.enclosed = front ++ (tag ++ (gap ++ (u.enclosed ++ after)))) := by
  obtain ⟨tag, rest, rfl, hletters⟩ := Text.startsWith_iff.mp hstart
  have htag : k.Tag tag := hletters
  obtain ⟨front', rfl⟩ := exists_cons_of_tag hk htag h
  have hcut : t.chars ++ ')' :: [] = (front' ++ tag) ++ rest := by
    rw [List.append_assoc]
    exact (List.cons.inj h).2
  have hne : rest ≠ [] := by
    rintro rfl
    -- The last character of the group would be the last one of the tag.
    have hlast := congrArg List.getLast? hcut
    rw [List.append_nil, List.getLast?_append, List.getLast?_append,
      List.getLast?_eq_some_getLast htag.ne_nil] at hlast
    have hc : ')' = tag.getLast htag.ne_nil := by simpa using hlast
    exact (htag.isPlain hk _ (List.getLast_mem htag.ne_nil)).2 hc.symm
  -- Behind the tag, the group goes on until it is closed, at the latest by its last parenthesis.
  obtain ⟨u, after, rfl⟩ := Forest.exists_closing_of_suffix hcut (List.length_pos_iff.mpr hne)
  obtain ⟨gap, hgap, hchars | ⟨v, rest, hchars⟩⟩ := u.exists_gap
  . exact ⟨tag, gap, htag, hgap, .inl ⟨after, by simp [h, hchars]⟩⟩
  . exact ⟨tag, gap, htag, hgap, .inr ⟨v, rest.chars ++ ')' :: after, by simp [h, hchars]⟩⟩

theorem first_value_cases (hk : k.form = .value) (t : Forest) :
    (∀ start, Text.occurrences k.chars start t.enclosed = []
      ∧ first ⟨start, t.enclosed⟩ k = .ok none)
    ∨ (∃ front tag gap after, t.enclosed = front ++ (tag ++ (gap ++ ')' :: after)) ∧ k.Tag tag
      ∧ Text.IsPlain gap ∧ ∀ start, first ⟨start, t.enclosed⟩ k = .error (.malformed .unopened
        (some ⟨start + Text.byteSize (front ++ (tag ++ gap)),
          start + Text.byteSize (front ++ (tag ++ gap)) + 1⟩)))
    ∨ (∃ front tag rest, t.enclosed = front ++ (tag ++ rest) ∧ k.Tag tag
      ∧ ∀ start, first ⟨start, t.enclosed⟩ k = .error (.malformed (.missingValue k)
        (some ⟨start + Text.byteSize front, start + Text.byteSize front + k.size⟩)))
    ∨ ∃ (front tag gap rest : List Char) (u : Forest),
      t.enclosed = front ++ (tag ++ (gap ++ (u.enclosed ++ rest))) ∧ k.Tag tag ∧ Text.allBlank gap
      ∧ ∀ start, first ⟨start, t.enclosed⟩ k = .ok (some ⟨k, ⟨start, t.enclosed⟩,
        u.nesting (start + Text.byteSize (front ++ (tag ++ gap)))⟩) := by
  rcases Text.first_occurrence k.chars t.enclosed with hnone | ⟨front, c, rest, h, hstart, hhead⟩
  . exact .inl fun start => ⟨hnone start, first_of_nil (hnone start)⟩
  have hplace : ∀ start, ((Fragment.mk start t.enclosed).places k).head?
      = some (start + Text.byteSize front) := hhead
  obtain ⟨tag, gap, htag, hgap, ⟨after, hclosing⟩ | ⟨u, after, hopening⟩⟩ :=
    exists_value hk h hstart
  . exact .inr (.inl ⟨front, tag, gap, after, hclosing, htag, hgap,
      fun start => first_value_of_closing htag hk hgap hclosing (hplace start)⟩)
  by_cases hblank : Text.allBlank gap
  . refine .inr (.inr (.inr ⟨front, tag, gap, after, u, hopening, htag, hblank, fun start => ?_⟩))
    exact (first_value_of_enclosed htag hk hgap hopening (hplace start)).trans (if_pos hblank)
  . refine .inr (.inr (.inl ⟨front, tag, _, hopening, htag, fun start => ?_⟩))
    exact (first_value_of_enclosed htag hk hgap hopening (hplace start)).trans (if_neg hblank)

end Inside

end Section
end PddlOutline
