import PddlOutline.Proofs.Layout.Blocks

/-!
This module contains what is read from the sections of a printed document.
-/

namespace PddlOutline

theorem Section.readD_of_forall₂ {f : Fragment} {k : Keyword} (hk : k.form = .block)
    {ts : List Forest} (h : List.Forall₂ f.GroupAt (f.places k) ts) {α : Type} (absent : α)
    (read : Section → Except ReadError α) :
    ts = [] ∧ readD f k absent read = .ok absent
      ∨ ∃ t ts' s, ts = t :: ts' ∧ s.keyword = k ∧ s.Holds t ∧ readD f k absent read = read s := by
  generalize hplaces : f.places k = places at h
  cases h with
  | nil =>
    refine .inl ⟨rfl, ?_⟩
    rw [readD, first_of_nil hplaces]
    rfl
  | @cons offset t _ ts hgroup _ =>
    have hfirst : (f.places k).head? = some offset := by
      rw [hplaces]
      rfl
    refine .inr ⟨t, ts, ⟨k, f, t.nesting offset⟩, rfl, rfl, holds_of_groupAt hgroup k, ?_⟩
    rw [readD, first_of_groupAt hk hfirst hgroup]
    rfl

namespace Layout

/--
Whether `read` finds in a block what the part that is printed as this block says of a keyword: a
value if it is the keyword of the block, and nothing otherwise.
-/
def Reads {α : Type} (k : Keyword) (b : Block) (read : Section → Except ReadError α) :
    Option α → Prop
  | some a => b.keyword = k ∧ ∀ s, s.keyword = b.keyword → s.Holds b.inside → read s = .ok a
  | none => b.keyword ≠ k

variable {P α : Type} {block : P → Block} {k : Keyword} {get? : P → Option α}
  {read : Section → Except ReadError α}

theorem findSome?_of_reads (h : ∀ p, Reads k (block p) read (get? p)) (parts : List P) :
    (parts.map block).filter (·.keyword = k) = [] ∧ parts.findSome? get? = none
      ∨ ∃ b blocks a, (parts.map block).filter (·.keyword = k) = b :: blocks
        ∧ parts.findSome? get? = some a ∧ Reads k b read (some a) := by
  induction parts with
  | nil => exact .inl ⟨rfl, rfl⟩
  | cons p parts ih =>
    have hp := h p
    rw [List.map_cons, List.findSome?_cons]
    cases hget : get? p with
    | none =>
      rw [hget, Reads] at hp
      rw [List.filter_cons_of_neg (by simpa using hp)]
      exact ih
    | some a =>
      rw [hget] at hp
      rw [List.filter_cons_of_pos (by simpa using hp.1)]
      exact .inr ⟨block p, _, a, rfl, rfl, hp⟩

theorem readD_eq {l : Layout} {parts : List P} (hblocks : l.blocks = parts.map block)
    (hk : k.form = .block) (absent : α) (h : ∀ p, Reads k (block p) read (get? p)) :
    Section.readD (Fragment.whole l.chars) k absent read
      =
    .ok ((parts.findSome? get?).getD absent) := by
  have hgroups := l.forall₂_groupAt hk
  rw [hblocks] at hgroups
  -- The first block with the keyword comes from the first part that has something to say.
  rcases findSome?_of_reads h parts with ⟨hnone, hfind⟩ | ⟨b, blocks, a, hcons, hfind, hreads⟩
  . rw [hnone] at hgroups
    rcases Section.readD_of_forall₂ hk hgroups absent read with ⟨_, habsent⟩ | ⟨_, _, _, hts, _⟩
    . rw [habsent, hfind]
      rfl
    . cases hts
  . rw [hcons, List.map_cons] at hgroups
    rcases Section.readD_of_forall₂ hk hgroups absent read with ⟨hts, _⟩ | ⟨t, _, s, hts, hs, hholds, hfound⟩
    . cases hts
    . obtain ⟨rfl, _⟩ := List.cons.inj hts
      rw [hfound, hreads.2 s (hs.trans hreads.1.symm) hholds, hfind]
      rfl

end Layout

/-! What is read from the items of a block. -/

/--
The words of a typed list that is in order.
-/
structure TypedWords where
  words : List Word
  list : TypedList
  isAccepted : TypedList.ofTokens (words.map Word.token) = .ok list

namespace Block

variable {b : Block}

theorem words_inside {ws : List Word} (h : b.items = ws.map .word) :
    Keyword.Form.block.words b.inside = ws.map Word.chars := by
  have hkeyword : ∀ k : Keyword, Text.IsWord k.chars.tail := by
    intro k
    cases k <;> decide
  rw [Keyword.Form.words, inside, Forest.chars_prepend, Forest.chars_ofItems, h,
    Text.words_append (Text.head?_spaced _), (hkeyword _).words_eq, Text.words_spaced]
  rfl

theorem map_ofChars (ws : List Word) :
    (ws.map Word.chars).map Token.ofChars = ws.map Word.token := by
  rw [List.map_map]
  rfl

end Block

namespace Section

variable {s : Section} {b : Block}

theorem Holds.symbols_of_words (h : s.Holds b.inside) (hk : s.keyword = b.keyword)
    {ws : List Word} (hitems : b.items = ws.map .word) :
    s.tokens.map (·.map Token.symbol) = .ok (ws.map Word.text) := by
  rw [h.symbols_eq, hk, b.isBlock, Block.words_inside hitems, List.map_map]
  rfl

theorem Holds.typedList_of_words (h : s.Holds b.inside) (hk : s.keyword = b.keyword)
    (l : TypedWords) (hitems : b.items = l.words.map .word) : s.typedList = .ok l.list := by
  have hlist := h.typedList_eq
  rw [hk, b.isBlock, Block.words_inside hitems, Block.map_ofChars, l.isAccepted] at hlist
  exact Outcome.mapError_eq_ok.mp hlist

theorem Holds.parts_of_expressions (h : s.Holds b.inside) {es : List Expression}
    (hitems : b.items = es.map .ofExpression) : s.parts = .ok (es.map Expression.text) := by
  rw [h.parts_eq, Block.trees_inside, hitems, ← Forest.trees_ofItems,
    Forest.trees_ofExpressions, List.map_map]
  rfl

theorem Holds.expressions_of_trees (h : s.Holds b.inside) (hk : s.keyword = b.keyword)
    {es : List Expression} (htrees : Forest.conjuncts b.inside.trees = es.map Expression.tree) :
    s.expressions = .ok (es.map Expression.text) := by
  rw [h.expressions_eq, hk, b.isBlock, Keyword.Form.trees, htrees, List.map_map]
  rfl

theorem Holds.expressions_of_expressions (h : s.Holds b.inside) (hk : s.keyword = b.keyword)
    {es : List Expression} (hitems : b.items = es.map .ofExpression)
    (hflat : ∀ e ∈ es.head?, ¬ Text.allBlank e.tree.chars
      ∧ ¬ Text.sameLetters e.tree.head "and".toList) :
    s.expressions = .ok (es.map Expression.text) := by
  apply h.expressions_of_trees hk
  rw [Block.trees_inside, hitems, ← Forest.trees_ofItems, Forest.trees_ofExpressions]
  cases es with
  | nil => rfl
  | cons e es =>
    rw [List.map_cons, Forest.conjuncts, if_neg]
    rw [Forest.isConjunction_enclosed, not_or]
    exact hflat e rfl

end Section
end PddlOutline
