import PddlOutline.Text.Fragment

/-!
This module contains what the runs of a fragment are: its maximal parts without blanks, located in
the text as a whole. Their characters do not depend on where the fragment starts.
-/

namespace PddlOutline
namespace Fragment

/--
Whether `r` is a maximal part of `f` without blanks.
-/
def IsRun (f r : Fragment) : Prop :=
  ∃ before after, f.chars = before ++ (r.chars ++ after)
    ∧ r.start = f.start + Text.byteSize before
    ∧ r.chars ≠ [] ∧ (∀ c ∈ r.chars, ¬ Text.isBlank c)
    ∧ (∀ c ∈ before.getLast?, Text.isBlank c) ∧ (∀ c ∈ after.head?, Text.isBlank c)

theorem runs.go_blank {c : Char} (h : Text.isBlank c) (offset : Nat) (cs : List Char) :
    go offset (c :: cs) = go (offset + c.utf8Size) cs := by
  rw [go, if_pos h]

theorem runs.go_word {word rest : List Char} (hne : word ≠ [])
    (hword : ∀ c ∈ word, ¬ Text.isBlank c) (hrest : ∀ c ∈ rest.head?, Text.isBlank c)
    (offset : Nat) :
    go offset (word ++ rest) = ⟨offset, word⟩ :: go (offset + Text.byteSize word) rest := by
  cases word with
  | nil => exact absurd rfl hne
  | cons c word =>
    have hbehind : rest.takeWhile (!Text.isBlank ·) = []
        ∧ rest.dropWhile (!Text.isBlank ·) = rest := by
      cases rest with
      | nil => exact ⟨rfl, rfl⟩
      | cons d rest => simp [hrest d rfl]
    have hall : ∀ d ∈ word, (!Text.isBlank d) = true := by
      intro d hd
      simpa using hword d (List.mem_cons_of_mem c hd)
    rw [List.cons_append, go, if_neg (hword c List.mem_cons_self),
      List.takeWhile_append_of_pos hall, List.dropWhile_append_of_pos hall, hbehind.1, hbehind.2,
      List.append_nil]

theorem runs.cases {motive : List Char → Prop} (nil : motive [])
    (blank : ∀ c cs, Text.isBlank c → motive cs → motive (c :: cs))
    (word : ∀ word rest, word ≠ [] → (∀ c ∈ word, ¬ Text.isBlank c) →
      (∀ c ∈ rest.head?, Text.isBlank c) → motive rest → motive (word ++ rest))
    (cs : List Char) : motive cs := by
  -- A text that is not empty starts with a blank or with a maximal word.
  match cs with
  | [] => exact nil
  | c :: cs =>
    by_cases hc : Text.isBlank c
    . exact blank c cs hc (runs.cases nil blank word cs)
    . have hsplit : c :: cs = (c :: cs.takeWhile (!Text.isBlank ·))
          ++ cs.dropWhile (!Text.isBlank ·) := by simp
      rw [hsplit]
      apply word
      . simp
      . intro d hd
        cases List.mem_cons.mp hd with
        | inl hd => rwa [hd]
        | inr hd => simpa using List.all_eq_true.mp List.all_takeWhile d hd
      . intro d hd
        have := List.head?_dropWhile_not (!Text.isBlank ·) cs
        rw [hd] at this
        simpa using this
      . exact runs.cases nil blank word (cs.dropWhile (!Text.isBlank ·))
termination_by cs.length
decreasing_by
  . simp
  . have := Text.length_dropWhile_le (!Text.isBlank ·) cs
    simp only [List.length_cons]
    omega

theorem isRun_of_mem_runs {f r : Fragment} (h : r ∈ f.runs) : f.IsRun r := by
  obtain ⟨start, chars⟩ := f
  rw [runs] at h
  simp only at h
  induction chars using runs.cases generalizing start with
  | nil => simp [runs.go] at h
  | blank c cs hc ih =>
    rw [runs.go_blank hc] at h
    obtain ⟨before, after, hcs, hstart, hne, hrun, hbefore, hafter⟩ := ih _ h
    refine ⟨c :: before, after, by simp_all, ?_, hne, hrun, ?_, hafter⟩
    . rw [hstart, Text.byteSize_cons, Nat.add_assoc]
    . cases before with
      | nil => simpa using hc
      | cons => simpa using hbefore
  | word word rest hne hword hrest ih =>
    rw [runs.go_word hne hword hrest] at h
    cases List.mem_cons.mp h with
    | inl h =>
      subst h
      exact ⟨[], rest, rfl, rfl, hne, hword, by simp, hrest⟩
    | inr h =>
      obtain ⟨before, after, hcs, hstart, hne', hrun, hbefore, hafter⟩ := ih _ h
      simp only at hcs hstart
      refine ⟨word ++ before, after, by simp [hcs], ?_, hne', hrun, ?_, hafter⟩
      . rw [hstart, Text.byteSize_append, Nat.add_assoc]
      . cases before with
        | nil =>
          -- What follows a run starts with a blank and is not the next run.
          obtain ⟨c, cs, hr⟩ := List.exists_cons_of_ne_nil hne'
          have hblank : Text.isBlank c := hrest c (by simp [hcs, hr])
          exact absurd hblank (hrun c (by simp [hr]))
        | cons c cs =>
          rw [List.getLast?_append]
          simpa using hbefore

theorem runs_map_chars (start : Nat) (cs : List Char) :
    (mk start cs).runs.map chars = Text.words cs := by
  have hshift : ∀ p q, (runs.go p cs).map chars = (runs.go q cs).map chars := by
    intro p q
    induction cs using runs.cases generalizing p q with
    | nil => rw [runs.go, runs.go]
    | blank c cs hc ih =>
      rw [runs.go_blank hc, runs.go_blank hc]
      exact ih _ _
    | word word rest hne hword hrest ih =>
      rw [runs.go_word hne hword hrest, runs.go_word hne hword hrest, List.map_cons,
        List.map_cons, ih]
  exact hshift start 0

end Fragment

namespace Text

@[simp]
theorem words_nil : words [] = [] := by
  rw [words, Fragment.whole, Fragment.runs, Fragment.runs.go, List.map_nil]

theorem words_blank {c : Char} (h : isBlank c) (cs : List Char) : words (c :: cs) = words cs := by
  rw [← Fragment.runs_map_chars (0 + c.utf8Size) cs]
  rw [words, Fragment.whole, Fragment.runs, Fragment.runs.go_blank h]
  rfl

theorem words_word {word rest : List Char} (hne : word ≠ []) (hword : ∀ c ∈ word, ¬ isBlank c)
    (hrest : ∀ c ∈ rest.head?, isBlank c) : words (word ++ rest) = word :: words rest := by
  rw [← Fragment.runs_map_chars (0 + byteSize word) rest]
  rw [words, Fragment.whole, Fragment.runs, Fragment.runs.go_word hne hword hrest]
  rfl

theorem exists_split_of_mem_words {word cs : List Char} (h : word ∈ words cs) :
    ∃ before after, cs = before ++ (word ++ after) ∧ word ≠ [] ∧ ∀ c ∈ word, ¬ isBlank c := by
  obtain ⟨r, hr, rfl⟩ := List.mem_map.mp h
  obtain ⟨before, after, hchars, _, hne, hsolid, _⟩ := Fragment.isRun_of_mem_runs hr
  exact ⟨before, after, hchars, hne, hsolid⟩

/-! Words of texts that are put together. -/

section Joined

variable {as bs sep : List Char}

def IsWord (cs : List Char) : Prop :=
  cs ≠ [] ∧ ∀ c ∈ cs, ¬ isBlank c

instance (cs : List Char) : Decidable (IsWord cs) :=
  inferInstanceAs (Decidable (_ ∧ _))

theorem isWord_of_mem_words {word cs : List Char} (h : word ∈ words cs) : IsWord word := by
  obtain ⟨_, _, _, hword⟩ := exists_split_of_mem_words h
  exact hword

theorem IsWord.words_eq (h : IsWord as) : words as = [as] := by
  have hwords : words (as ++ []) = as :: words [] := words_word h.1 h.2 (by simp)
  rwa [List.append_nil, words_nil] at hwords

theorem words_append (h : ∀ c ∈ bs.head?, isBlank c) : words (as ++ bs) = words as ++ words bs := by
  induction as using Fragment.runs.cases with
  | nil => rw [words_nil, List.nil_append, List.nil_append]
  | blank c cs hc ih => rw [List.cons_append, words_blank hc, words_blank hc, ih]
  | word word rest hne hword hrest ih =>
    have hbehind : ∀ c ∈ (rest ++ bs).head?, isBlank c := by
      cases rest with
      | nil => exact h
      | cons d rest => exact hrest
    rw [List.append_assoc, words_word hne hword hbehind, words_word hne hword hrest, ih,
      List.cons_append]

theorem words_blanks (hsep : ∀ c ∈ sep, isBlank c) (cs : List Char) :
    words (sep ++ cs) = words cs := by
  induction sep with
  | nil => rfl
  | cons c sep ih =>
    rw [List.forall_mem_cons] at hsep
    rw [List.cons_append, words_blank hsep.1, ih hsep.2]

theorem words_of_allBlank {cs : List Char} (h : allBlank cs) : words cs = [] := by
  have hwords := words_blanks (List.all_eq_true.mp h) []
  rwa [List.append_nil, words_nil] at hwords

theorem words_solid {c : Char} (hc : ¬ isBlank c) (cs : List Char) :
    words (c :: cs)
      =
    (c :: cs.takeWhile (!isBlank ·)) :: words (cs.dropWhile (!isBlank ·)) := by
  have hword : ∀ d ∈ c :: cs.takeWhile (!isBlank ·), ¬ isBlank d := by
    rw [List.forall_mem_cons]
    refine ⟨hc, ?_⟩
    intro d hd
    simpa using List.all_eq_true.mp List.all_takeWhile d hd
  have hrest : ∀ d ∈ (cs.dropWhile (!isBlank ·)).head?, isBlank d := by
    intro d hd
    have := List.head?_dropWhile_not (!isBlank ·) cs
    rw [hd] at this
    simpa using this
  have hwords := words_word (List.cons_ne_nil c _) hword hrest
  rwa [List.cons_append, List.takeWhile_append_dropWhile] at hwords

theorem drop_words_append {head : List Char} (hne : head ≠ []) (h : ∀ c ∈ head, ¬ isBlank c)
    (cs : List Char) : (words (head ++ cs)).drop 1 = words (cs.dropWhile (!isBlank ·)) := by
  obtain ⟨c, head, rfl⟩ := List.exists_cons_of_ne_nil hne
  rw [List.forall_mem_cons] at h
  rw [List.cons_append, words_solid h.1, List.drop_succ_cons, List.drop_zero,
    List.dropWhile_append_of_pos]
  intro d hd
  simpa using h.2 d hd

theorem words_append_blanks (hne : sep ≠ []) (hsep : ∀ c ∈ sep, isBlank c) :
    words (as ++ (sep ++ bs)) = words as ++ words bs := by
  rw [words_append, words_blanks hsep]
  obtain ⟨d, sep, rfl⟩ := List.exists_cons_of_ne_nil hne
  intro c hc
  cases hc
  exact hsep d List.mem_cons_self

theorem words_intercalate (hne : sep ≠ []) (hsep : ∀ c ∈ sep, isBlank c)
    (texts : List (List Char)) : words (sep.intercalate texts) = texts.flatMap words := by
  induction texts with
  | nil => exact words_nil
  | cons text texts ih =>
    cases texts with
    | nil => rw [List.intercalate_singleton, List.flatMap_singleton]
    | cons text' texts =>
      rw [List.intercalate_cons_cons, List.append_assoc, words_append_blanks hne hsep, ih]
      rfl

end Joined

end Text
end PddlOutline
