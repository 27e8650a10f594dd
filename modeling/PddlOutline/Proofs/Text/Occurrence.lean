import PddlOutline.Text.Basic

/-!
This module contains the places at which a word occurs in a text. An occurrence splits the text
into what comes before it and what starts with the word, and texts can be searched one after the
other if no occurrence crosses from one to the next.
-/

namespace PddlOutline
namespace Text

theorem length_eq_of_sameLetters {as bs : List Char} (h : sameLetters as bs) :
    as.length = bs.length := by
  rw [sameLetters, beq_iff_eq] at h
  simpa using congrArg List.length h

theorem startsWith_iff {word cs : List Char} :
    startsWith word cs ↔ ∃ tag rest, cs = tag ++ rest ∧ sameLetters word tag := by
  rw [startsWith]
  constructor
  . intro h
    exact ⟨cs.take word.length, cs.drop word.length, by simp, h⟩
  . rintro ⟨tag, rest, rfl, h⟩
    have := length_eq_of_sameLetters h
    simpa [this] using h

theorem mem_toLower_of_startsWith {word cs : List Char} (h : startsWith word cs) {w : Char}
    (hw : w ∈ word) : ∃ c ∈ cs, c.toLower = w.toLower := by
  rw [startsWith, sameLetters, beq_iff_eq] at h
  have : w.toLower ∈ (cs.take word.length).map Char.toLower := by
    rw [← h]
    exact List.mem_map_of_mem hw
  obtain ⟨c, hc, hletter⟩ := List.mem_map.mp this
  exact ⟨c, List.mem_of_mem_take hc, hletter⟩

theorem mem_occurrences {word cs : List Char} {offset k : Nat} :
    k ∈ occurrences word offset cs ↔
      ∃ front c rest, cs = front ++ c :: rest ∧ k = offset + byteSize front
        ∧ startsWith word (c :: rest) := by
  constructor
  . intro h
    induction cs generalizing offset with
    | nil => simp [occurrences] at h
    | cons c cs ih =>
      have hlater : k ∈ occurrences word (offset + c.utf8Size) cs →
          ∃ front d rest, c :: cs = front ++ d :: rest ∧ k = offset + byteSize front
            ∧ startsWith word (d :: rest) := by
        intro hk
        obtain ⟨front, d, rest, hcs, hoffset, hstart⟩ := ih hk
        exact ⟨c :: front, d, rest, by simp [hcs], by simp [hoffset, Nat.add_assoc], hstart⟩
      rw [occurrences] at h
      split at h
      next hstart =>
        cases List.mem_cons.mp h with
        | inl hk => exact ⟨[], c, cs, rfl, by simp [hk], hstart⟩
        | inr hk => exact hlater hk
      next => exact hlater h
  . rintro ⟨front, c, rest, rfl, rfl, hstart⟩
    induction front generalizing offset with
    | nil => simp [occurrences, hstart]
    | cons d front ih =>
      have : offset + byteSize (d :: front) ∈
          occurrences word (offset + d.utf8Size) (front ++ c :: rest) := by
        rw [byteSize_cons, ← Nat.add_assoc]
        exact ih
      rw [List.cons_append, occurrences]
      split
      . exact List.mem_cons_of_mem _ this
      . exact this

theorem occurrences_pairwise (word : List Char) (offset : Nat) (cs : List Char) :
    (occurrences word offset cs).Pairwise (· < ·) := by
  induction cs generalizing offset with
  | nil => exact .nil
  | cons c cs ih =>
    rw [occurrences]
    split
    . rw [List.pairwise_cons]
      refine ⟨?_, ih _⟩
      intro k hk
      obtain ⟨_, _, _, _, hoffset, _⟩ := mem_occurrences.mp hk
      have := c.utf8Size_pos
      omega
    . exact ih _

theorem occurrences_eq_nil {word cs : List Char} {w : Char} (hw : w ∈ word)
    (h : ∀ c ∈ cs, c.toLower ≠ w.toLower) (offset : Nat) : occurrences word offset cs = [] := by
  rw [List.eq_nil_iff_forall_not_mem]
  intro k hk
  obtain ⟨front, c, rest, rfl, _, hstart⟩ := mem_occurrences.mp hk
  obtain ⟨d, hd, hletter⟩ := mem_toLower_of_startsWith hstart hw
  exact h d (List.mem_append_right front hd) hletter

theorem startsWith_append {word as bs : List Char} (has : as ≠ [])
    (h : ∀ b ∈ bs.head?, b.toLower ∉ word.tail.map Char.toLower) :
    startsWith word (as ++ bs) = startsWith word as := by
  by_cases hlength : word.length ≤ as.length
  . rw [startsWith, startsWith, List.take_append_of_le_length hlength]
  cases bs with
  | nil => rw [List.append_nil]
  | cons b bs =>
    -- The word would have to go on with `b`.
    have hlonger : ¬ startsWith word (as ++ b :: bs) := by
      intro hstart
      rw [startsWith, sameLetters, beq_iff_eq] at hstart
      apply h b rfl
      have hpos := List.length_pos_iff.mpr has
      have hget : (word.tail.map Char.toLower)[as.length - 1]? = some b.toLower := by
        rw [List.map_tail, hstart, List.getElem?_tail, Nat.sub_add_cancel hpos, List.getElem?_map,
          List.getElem?_take_of_lt (by omega)]
        simp
      exact List.mem_of_getElem? hget
    have hshorter : ¬ startsWith word as := by
      intro hstart
      rw [startsWith] at hstart
      have := length_eq_of_sameLetters hstart
      simp at this
      omega
    rw [Bool.eq_false_iff.mpr hlonger, Bool.eq_false_iff.mpr hshorter]

theorem occurrences_append {word as bs : List Char}
    (h : ∀ b ∈ bs.head?, b.toLower ∉ word.tail.map Char.toLower) (offset : Nat) :
    occurrences word offset (as ++ bs)
      =
    occurrences word offset as ++ occurrences word (offset + byteSize as) bs := by
  induction as generalizing offset with
  | nil => rfl
  | cons a as ih =>
    have hstart : startsWith word (a :: (as ++ bs)) = startsWith word (a :: as) :=
      startsWith_append (List.cons_ne_nil a as) h
    rw [List.cons_append, occurrences, occurrences, hstart, ih, byteSize_cons, Nat.add_assoc]
    split
    . rfl
    . rfl

theorem first_occurrence (word cs : List Char) :
    (∀ offset, occurrences word offset cs = [])
      ∨ ∃ front c rest, cs = front ++ c :: rest ∧ startsWith word (c :: rest)
        ∧ ∀ offset, (occurrences word offset cs).head? = some (offset + byteSize front) := by
  induction cs with
  | nil => exact .inl fun offset => rfl
  | cons c cs ih =>
    by_cases hstart : startsWith word (c :: cs)
    . refine .inr ⟨[], c, cs, rfl, hstart, ?_⟩
      intro offset
      rw [occurrences, if_pos hstart]
      rfl
    . have hskip : ∀ offset, occurrences word offset (c :: cs)
          = occurrences word (offset + c.utf8Size) cs := by
        intro offset
        rw [occurrences, if_neg hstart]
      rcases ih with hnone | ⟨front, d, rest, hcs, hstart', hhead⟩
      . refine .inl fun offset => ?_
        rw [hskip]
        exact hnone _
      . refine .inr ⟨c :: front, d, rest, by simp [hcs], hstart', ?_⟩
        intro offset
        rw [hskip, hhead, byteSize_cons, Nat.add_assoc]

end Text
end PddlOutline
