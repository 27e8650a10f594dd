import Mathlib.Data.List.Forall2
import PddlOutline.Proofs.Layout.Items
import PddlOutline.Proofs.Section

/-!
This module contains the printed form of sections and of the documents that consist of them, and
where the keywords are found in it.
-/

namespace PddlOutline

/--
A section that is printed as its keyword and the items behind it, in the parentheses that open with
the keyword.
-/
structure Block where
  keyword : Keyword
  isBlock : keyword.form = .block
  items : List Item

theorem Item.occurrences_eq_nil {k : Keyword} (hk : k.form = .block) (i : Item) (offset : Nat) :
    Text.occurrences k.chars offset i.chars = [] := by
  apply Keyword.occurrences_eq_nil
  cases i with
  | word w => exact .inr ⟨hk, w.not_mem_opening⟩
  | group t _ isBare => exact .inl isBare

theorem head?_spaced_append (items : List Item) {bs : List Char}
    (h : ∀ b ∈ bs.head?, b = ' ' ∨ b = ')') : ∀ b ∈ (spaced items ++ bs).head?, b = ' ' ∨ b = ')' := by
  cases items with
  | nil => exact h
  | cons i items =>
    intro b hb
    have hspace : ' ' = b := by simpa [spaced] using hb
    exact .inl hspace.symm

theorem occurrences_spaced_append {k : Keyword} {items : List Item}
    (hitems : ∀ i ∈ items, ∀ offset, Text.occurrences k.chars offset i.chars = []) {bs : List Char}
    (h : ∀ b ∈ bs.head?, b = ' ' ∨ b = ')') (offset : Nat) :
    Text.occurrences k.chars offset (spaced items ++ bs)
      =
    Text.occurrences k.chars (offset + Text.byteSize (spaced items)) bs := by
  induction items generalizing offset with
  | nil => rfl
  | cons i items ih =>
    have hcons : spaced (i :: items) = ' ' :: (i.chars ++ spaced items) := rfl
    have hspace : ' '.utf8Size = 1 := by decide
    rw [hcons, List.cons_append, List.append_assoc, Keyword.occurrences_space,
      Keyword.occurrences_append k (head?_spaced_append items h), hitems i List.mem_cons_self,
      List.nil_append, ih fun j hj => hitems j (List.mem_cons_of_mem i hj)]
    rw [Text.byteSize_cons, Text.byteSize_append, hspace, Nat.add_assoc, Nat.add_assoc]

namespace Block

def inside (b : Block) : Forest :=
  .prepend b.keyword.chars.tail
    (by
      have : ∀ k : Keyword, Text.IsPlain k.chars.tail := by
        intro k
        cases k <;> decide
      exact this b.keyword)
    (.ofItems b.items)

def chars (b : Block) : List Char :=
  b.keyword.chars ++ (spaced b.items ++ [')'])

theorem enclosed_inside (b : Block) : b.inside.enclosed = b.chars := by
  have hhead := (Keyword.form_eq_block_iff b.keyword).mp b.isBlock
  have hkeyword : b.keyword.chars = '(' :: b.keyword.chars.tail := List.eq_cons_of_mem_head? hhead
  rw [Forest.enclosed, inside, Forest.chars_prepend, Forest.chars_ofItems, chars, hkeyword]
  simp

theorem trees_inside (b : Block) : b.inside.trees = b.items.flatMap Item.trees := by
  rw [inside, Forest.trees_prepend, Forest.trees_ofItems]

theorem isLine (b : Block) : Text.IsLine b.chars := by
  have hkeyword : ∀ k : Keyword, Text.IsLine k.chars := by
    intro k
    apply Text.IsLine.of_forall
    cases k <;> decide
  apply (hkeyword b.keyword).append
  apply (isLine_spaced b.items).append
  exact .of_forall (by decide)

theorem occurrences_chars (b : Block) {k : Keyword} (hk : k.form = .block) (offset : Nat) :
    Text.occurrences k.chars offset b.chars = if k = b.keyword then [offset] else [] := by
  have hclosing : ∀ c ∈ [')'].head?, c = ' ' ∨ c = ')' := by decide
  rw [chars, Keyword.occurrences_append k (head?_spaced_append b.items hclosing),
    occurrences_spaced_append (fun i _ => i.occurrences_eq_nil hk) hclosing,
    Keyword.occurrences_chars, Keyword.occurrences_eq_nil (.inl (by decide)), List.append_nil]

end Block

/--
A document that is printed on a single line: a header and the blocks behind it. The first of its
parentheses is closed behind the last block.
-/
structure Layout where
  header : List Char
  isLine : Text.IsLine header
  isBare : ∀ k : Keyword, k.form = .block → ∀ offset, Text.occurrences k.chars offset header = []
  blocks : List Block

namespace Layout

def body (blocks : List Block) : List Char :=
  blocks.flatMap (fun b => ' ' :: b.chars) ++ [')']

def chars (l : Layout) : List Char :=
  l.header ++ body l.blocks

theorem isLine_body (blocks : List Block) : Text.IsLine (body blocks) := by
  induction blocks with
  | nil => exact .of_forall (by decide)
  | cons b blocks ih =>
    have hcons : body (b :: blocks) = (' ' :: b.chars) ++ body blocks := by simp [body]
    rw [hcons]
    refine .append ?_ ih
    have hline := b.isLine
    rw [← b.enclosed_inside] at hline ⊢
    exact hline.space (by decide)

theorem normalize_chars (l : Layout) : Text.normalize l.chars = l.chars := by
  apply (l.isLine.append (isLine_body l.blocks)).normalize_eq
  exact ⟨')', by simp [body], by decide⟩

theorem head?_body (blocks : List Block) : ∀ b ∈ (body blocks).head?, b = ' ' ∨ b = ')' := by
  intro c hc
  cases blocks with
  | nil =>
    have : ')' = c := by simpa [body] using hc
    exact .inr this.symm
  | cons b blocks =>
    have : ' ' = c := by simpa [body] using hc
    exact .inl this.symm

theorem forall₂_groupAt_body {f : Fragment} {k : Keyword} (hk : k.form = .block)
    {front : List Char} {blocks : List Block} (h : f.chars = front ++ body blocks) :
    List.Forall₂ f.GroupAt
      (Text.occurrences k.chars (f.start + Text.byteSize front) (body blocks))
      ((blocks.filter (·.keyword = k)).map Block.inside) := by
  -- The induction moves one block after the other to the front.
  induction blocks generalizing front with
  | nil =>
    rw [Keyword.occurrences_eq_nil (.inl (by decide))]
    exact .nil
  | cons b blocks ih =>
    have hspace : ' '.utf8Size = 1 := by decide
    have hcons : body (b :: blocks) = ' ' :: (b.chars ++ body blocks) := by simp [body]
    have hnext : f.chars = (front ++ ' ' :: b.chars) ++ body blocks := by simp [h, hcons]
    have hgroup : f.GroupAt (f.start + Text.byteSize front + 1) b.inside := by
      refine ⟨front ++ [' '], body blocks, ?_, ?_⟩
      . simp [h, hcons, b.enclosed_inside]
      . rw [Text.byteSize_append, ← Nat.add_assoc]
        rfl
    have hrest := ih hnext
    rw [Text.byteSize_append, Text.byteSize_cons, hspace, ← Nat.add_assoc, ← Nat.add_assoc]
      at hrest
    rw [hcons, Keyword.occurrences_space, Keyword.occurrences_append k (head?_body blocks),
      b.occurrences_chars hk]
    by_cases hkeyword : k = b.keyword
    . rw [if_pos hkeyword, List.filter_cons_of_pos (by simp [hkeyword]), List.map_cons]
      exact .cons hgroup hrest
    . rw [if_neg hkeyword, List.filter_cons_of_neg (by simpa using Ne.symm hkeyword)]
      exact hrest

theorem forall₂_groupAt (l : Layout) {k : Keyword} (hk : k.form = .block) :
    List.Forall₂ (Fragment.whole l.chars).GroupAt ((Fragment.whole l.chars).places k)
      ((l.blocks.filter (·.keyword = k)).map Block.inside) := by
  have hbody : (Fragment.whole l.chars).chars = l.header ++ body l.blocks := rfl
  have hplaces : (Fragment.whole l.chars).places k
      = Text.occurrences k.chars (0 + Text.byteSize l.header) (body l.blocks) := by
    rw [Fragment.places, hbody, Keyword.occurrences_append k (head?_body l.blocks),
      l.isBare k hk, List.nil_append]
    rfl
  rw [hplaces]
  exact forall₂_groupAt_body hk hbody

end Layout
end PddlOutline
