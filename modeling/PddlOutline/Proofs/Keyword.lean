import PddlOutline.Keyword
import PddlOutline.Proofs.Nesting.Forest
import PddlOutline.Proofs.Text.Occurrence

/-!
This module contains tags, the spellings of a keyword that a document may use. A tag has as many
bytes as characters and no blank; the only parenthesis in it is the first character of the tag of
a block.
-/

namespace PddlOutline

theorem Text.byteSize_eq_length {cs : List Char} (h : ∀ c ∈ cs, c.utf8Size = 1) :
    byteSize cs = cs.length := by
  induction cs with
  | nil => rfl
  | cons c cs ih =>
    rw [byteSize_cons, h c List.mem_cons_self, ih fun d hd => h d (List.mem_cons_of_mem c hd),
      List.length_cons, Nat.add_comm]

theorem Text.toLower_cases (c : Char) :
    c.toLower = c ∨ (65 ≤ c.toNat ∧ c.toNat ≤ 90 ∧ c.toLower.toNat = c.toNat + 32) := by
  by_cases h : c.val ≥ 'A'.val ∧ c.val ≤ 'Z'.val
  . refine .inr ⟨h.1, h.2, ?_⟩
    have hupper : c.val.toNat ≤ 90 := h.2
    have hval : c.toLower.val = c.val + 32 := congrArg Char.val (dif_pos h)
    show c.toLower.val.toNat = c.val.toNat + 32
    rw [hval, UInt32.toNat_add]
    show (c.val.toNat + 32) % 2 ^ 32 = _
    omega
  . exact .inl (dif_neg h)

theorem Text.toLower_eq_or (c : Char) : c.toLower = c ∨ (c.utf8Size = 1 ∧ 'a' ≤ c.toLower) := by
  rcases toLower_cases c with h | ⟨_, hupper, hlower⟩
  . exact .inl h
  . refine .inr ⟨?_, ?_⟩
    . rw [Char.utf8Size_eq_one_iff]
      show c.toNat ≤ 127
      omega
    . show 97 ≤ c.toLower.toNat
      omega

theorem Text.toLower_ne {c w : Char} (hw : w < 'a') (h : c ≠ w) : c.toLower ≠ w := by
  rintro rfl
  -- What changes its case becomes a letter.
  cases toLower_eq_or c with
  | inl hlower => exact h hlower.symm
  | inr hupper => exact absurd hw (Char.not_lt.mpr hupper.2)

/--
The byte offsets at which a keyword stands.
-/
def Fragment.places (f : Fragment) (k : Keyword) : List Nat :=
  Text.occurrences k.chars f.start f.chars

namespace Keyword

theorem of_mem_chars {k : Keyword} {c : Char} (h : c ∈ k.chars) :
    c.toLower = c ∧ c.utf8Size = 1 ∧ ¬ Text.isBlank c ∧ c ≠ ')' ∧ (k.form = .value → c ≠ '(') := by
  have : ∀ c ∈ k.chars, c.toLower = c ∧ c.utf8Size = 1 ∧ ¬ Text.isBlank c ∧ c ≠ ')'
      ∧ (k.form = .value → c ≠ '(') := by
    cases k <;> decide
  exact this c h

theorem occurrences_chars (k p : Keyword) (offset : Nat) :
    Text.occurrences k.chars offset p.chars = if k = p then [offset] else [] := by
  cases k <;> cases p <;> rfl

theorem occurrences_append (k : Keyword) {as bs : List Char}
    (h : ∀ b ∈ bs.head?, b = ' ' ∨ b = ')') (offset : Nat) :
    Text.occurrences k.chars offset (as ++ bs)
      =
    Text.occurrences k.chars offset as
      ++ Text.occurrences k.chars (offset + Text.byteSize as) bs := by
  apply Text.occurrences_append
  intro b hb
  -- No keyword goes on with a space or a closing parenthesis.
  have hend : ' ' ∉ k.chars.tail.map Char.toLower ∧ ')' ∉ k.chars.tail.map Char.toLower := by
    cases k <;> decide
  cases h b hb with
  | inl hspace =>
    rw [hspace]
    exact hend.1
  | inr hclosing =>
    rw [hclosing]
    exact hend.2

theorem occurrences_space (k : Keyword) (offset : Nat) (cs : List Char) :
    Text.occurrences k.chars offset (' ' :: cs) = Text.occurrences k.chars (offset + 1) cs := by
  have hstart : Text.startsWith k.chars (' ' :: cs) = false := by
    cases k <;> rfl
  rw [Text.occurrences, hstart]
  rfl

theorem occurrences_eq_nil {k : Keyword} {cs : List Char}
    (h : ':' ∉ cs ∨ k.form = .block ∧ '(' ∉ cs) (offset : Nat) :
    Text.occurrences k.chars offset cs = [] := by
  rcases h with h | ⟨hk, h⟩
  . have hcolon : ':' ∈ k.chars := by
      cases k <;> decide
    apply Text.occurrences_eq_nil hcolon
    intro c hc
    apply Text.toLower_ne (by decide)
    rintro rfl
    exact h hc
  . have hopening : '(' ∈ k.chars := List.mem_of_mem_head? ((form_eq_block_iff k).mp hk)
    apply Text.occurrences_eq_nil hopening
    intro c hc
    apply Text.toLower_ne (by decide)
    rintro rfl
    exact h hc

/--
Whether a text is the keyword, up to the case of its letters.
-/
def Tag (k : Keyword) (tag : List Char) : Prop :=
  Text.sameLetters k.chars tag

namespace Tag

variable {k : Keyword} {tag : List Char}

theorem refl (k : Keyword) : k.Tag k.chars := by
  rw [Tag, Text.sameLetters, beq_self_eq_true]

theorem length_eq (h : k.Tag tag) : tag.length = k.size :=
  (Text.length_eq_of_sameLetters h).symm

theorem ne_nil (h : k.Tag tag) : tag ≠ [] := by
  have hpos : 0 < k.size := by
    cases k <;> decide
  rw [← h.length_eq] at hpos
  exact List.length_pos_iff.mp hpos

theorem toLower_mem (h : k.Tag tag) {c : Char} (hc : c ∈ tag) : c.toLower ∈ k.chars := by
  rw [Tag, Text.sameLetters, beq_iff_eq] at h
  have : c.toLower ∈ k.chars.map Char.toLower := by
    rw [h]
    exact List.mem_map_of_mem hc
  obtain ⟨w, hw, hletter⟩ := List.mem_map.mp this
  rw [(of_mem_chars hw).1] at hletter
  rwa [← hletter]

theorem utf8Size_eq (h : k.Tag tag) {c : Char} (hc : c ∈ tag) : c.utf8Size = 1 := by
  cases Text.toLower_eq_or c with
  | inl hlower =>
    have := h.toLower_mem hc
    rw [hlower] at this
    exact (of_mem_chars this).2.1
  | inr hupper => exact hupper.1

theorem byteSize_eq (h : k.Tag tag) : Text.byteSize tag = k.size := by
  rw [← h.length_eq]
  exact Text.byteSize_eq_length fun c hc => h.utf8Size_eq hc

theorem isPlain (h : k.Tag tag) (hk : k.form = .value) : Text.IsPlain tag := by
  intro c hc
  have hletter := of_mem_chars (h.toLower_mem hc)
  constructor
  . rintro rfl
    exact hletter.2.2.2.2 hk rfl
  . rintro rfl
    exact hletter.2.2.2.1 rfl

theorem eq_cons (h : k.Tag tag) (hk : k.form = .block) : ∃ rest, tag = '(' :: rest := by
  rw [form_eq_block_iff] at hk
  rw [Tag, Text.sameLetters, beq_iff_eq] at h
  cases tag with
  | nil =>
    have hnil : k.chars = [] := by simpa using h
    simp [hnil] at hk
  | cons c rest =>
    refine ⟨rest, ?_⟩
    have hc : c.toLower = '(' := by
      have := congrArg List.head? h
      rw [List.head?_map, hk] at this
      simpa using this.symm
    cases Text.toLower_eq_or c with
    | inl hlower => rw [← hlower, hc]
    | inr hupper =>
      rw [hc] at hupper
      exact absurd hupper.2 (by decide)

end Tag
end Keyword

namespace Fragment

variable {f : Fragment} {k : Keyword} {offset : Nat}

theorem mem_places :
    offset ∈ f.places k ↔ ∃ front tag rest, f.chars = front ++ (tag ++ rest) ∧ k.Tag tag
      ∧ offset = f.start + Text.byteSize front := by
  rw [places, Text.mem_occurrences]
  constructor
  . rintro ⟨front, c, rest, hchars, hoffset, hstart⟩
    obtain ⟨tag, behind, hcs, htag⟩ := Text.startsWith_iff.mp hstart
    exact ⟨front, tag, behind, by rw [hchars, hcs], htag, hoffset⟩
  . rintro ⟨front, tag, rest, hchars, htag, hoffset⟩
    obtain ⟨c, tag', rfl⟩ := List.exists_cons_of_ne_nil htag.ne_nil
    refine ⟨front, c, tag' ++ rest, hchars, hoffset, ?_⟩
    exact Text.startsWith_iff.mpr ⟨c :: tag', rest, rfl, htag⟩

theorem places_pairwise (f : Fragment) (k : Keyword) : (f.places k).Pairwise (· < ·) :=
  Text.occurrences_pairwise k.chars f.start f.chars

end Fragment
end PddlOutline
