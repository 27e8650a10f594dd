import PddlOutline.Proofs.Action
import PddlOutline.Proofs.Layout.Sections

/-!
This module contains the printed form of actions and what is read from it.
-/

namespace PddlOutline

theorem Text.isLine_enclosed {t : Forest} (h : Text.IsLine t.chars) : Text.IsLine t.enclosed := by
  have henclosed : t.enclosed = ['('] ++ (t.chars ++ [')']) := rfl
  rw [henclosed]
  refine .append (.of_forall (by decide)) (h.append (.of_forall (by decide)))

theorem Forest.not_mem_enclosed {t : Forest} {c : Char} (hc : c ≠ '(' ∧ c ≠ ')')
    (h : c ∉ t.chars) : c ∉ t.enclosed := by
  simp [enclosed, hc, h]

def Word.ofKeyword (k : Keyword) (hk : k.form = .value) : Word where
  chars := k.chars
  ne_nil := by cases k <;> decide
  isSolid := by
    have : ∀ k : Keyword, k.form = .value → ∀ c ∈ k.chars,
        ¬ Text.isBlank c ∧ c ≠ '(' ∧ c ≠ ')' ∧ c ≠ ';' := by
      intro k
      cases k <;> decide
    exact this k hk

namespace Forest

def conjunction (es : List Expression) : Forest :=
  .prepend "and".toList (by decide) (.ofItems (es.map .ofExpression))

theorem trees_conjunction (es : List Expression) :
    (conjunction es).trees = es.map Expression.tree := by
  rw [conjunction, trees_prepend, trees_ofExpressions]

theorem isConjunction_conjunction (es : List Expression) :
    Text.isConjunction (conjunction es).enclosed := by
  have hend : ∀ c ∈ (spaced (es.map Item.ofExpression) ++ [')']).head?, c = ' ' ∨ c = ')' :=
    head?_spaced_append _ (by decide)
  rw [enclosed, conjunction, chars_prepend, chars_ofItems, List.append_assoc]
  generalize spaced (es.map Item.ofExpression) ++ [')'] = rest at hend
  cases rest with
  | nil => rfl
  | cons c rest =>
    rcases hend c rfl with rfl | rfl
    . rfl
    . rfl

end Forest

namespace Item

def Lacks (i : Item) (k : Keyword) : Prop :=
  ∀ offset, Text.occurrences k.chars offset i.chars = []

theorem word_lacks {w : Word} (h : w.IsBare) (k : Keyword) : (word w).Lacks k :=
  Keyword.occurrences_eq_nil (.inl h)

theorem group_lacks (t : Forest) (isLine : Text.IsLine t.enclosed) (isBare : ':' ∉ t.enclosed)
    (k : Keyword) : (group t isLine isBare).Lacks k :=
  Keyword.occurrences_eq_nil (.inl isBare)

theorem keyword_lacks {k p : Keyword} (hp : p.form = .value) (h : k ≠ p) :
    (word (.ofKeyword p hp)).Lacks k := by
  intro offset
  show Text.occurrences k.chars offset p.chars = []
  rw [Keyword.occurrences_chars, if_neg h]

def ofWords (ws : List Word) (h : ∀ w ∈ ws, w.IsBare) : Item :=
  .group (.ofWords ws)
    (by
      apply Text.isLine_enclosed
      cases ws with
      | nil => exact .of_forall (by simp [Forest.ofWords, Forest.chars])
      | cons w ws =>
        rw [Forest.ofWords, Forest.chars_prepend, Forest.chars_ofItems]
        exact w.isLine.append (isLine_spaced _))
    (by
      apply Forest.not_mem_enclosed (by decide)
      cases ws with
      | nil => simp [Forest.ofWords, Forest.chars]
      | cons w ws =>
        rw [Forest.ofWords, Forest.chars_prepend, Forest.chars_ofItems, List.mem_append, not_or]
        refine ⟨h w List.mem_cons_self, not_mem_spaced (by decide) ?_⟩
        intro i hi
        obtain ⟨w', hw', rfl⟩ := List.mem_map.mp hi
        exact h w' (List.mem_cons_of_mem w hw'))

def conjunction (es : List Expression) : Item :=
  .group (.conjunction es)
    (by
      apply Text.isLine_enclosed
      rw [Forest.conjunction, Forest.chars_prepend, Forest.chars_ofItems]
      exact .append (.of_forall (by decide)) (isLine_spaced _))
    (by
      apply Forest.not_mem_enclosed (by decide)
      rw [Forest.conjunction, Forest.chars_prepend, Forest.chars_ofItems, List.mem_append, not_or]
      refine ⟨by decide, not_mem_spaced (by decide) ?_⟩
      intro i hi
      obtain ⟨e, _, rfl⟩ := List.mem_map.mp hi
      intro hcolon
      exact (e.isClean _ hcolon).1 rfl)

end Item

theorem Forest.conjuncts_conjunction (es : List Expression) :
    conjuncts [conjunction es] = es.map Expression.tree := by
  rw [conjuncts, if_pos (isConjunction_conjunction es), trees_conjunction, List.append_nil]

theorem Section.Holds.expressions_of_conjunction {s : Section} {b : Block} (h : s.Holds b.inside)
    (hk : s.keyword = b.keyword) {es : List Expression} (hitems : b.items = [.conjunction es]) :
    s.expressions = .ok (es.map Expression.text) := by
  apply h.expressions_of_trees hk
  rw [Block.trees_inside, hitems]
  exact Forest.conjuncts_conjunction es

namespace Block

theorem needed_eq {b : Block} {k : Keyword} (hk : k.form = .value) {before after : List Item}
    {u : Forest} {isLine : Text.IsLine u.enclosed} {isBare : ':' ∉ u.enclosed}
    (hitems : b.items = before ++ .word (.ofKeyword k hk) :: .group u isLine isBare :: after)
    (hbefore : ∀ i ∈ before, i.Lacks k) (start : Nat) :
    ∃ s, Action.needed ⟨start, b.chars⟩ k = .ok s ∧ s.keyword = k ∧ s.Holds u := by
  have hne : k ≠ b.keyword := by
    rintro rfl
    have := b.isBlock
    rw [hk] at this
    cases this
  have hspaced : spaced b.items ++ [')']
      = spaced before ++ ' ' :: (k.chars ++ ([' '] ++ (u.enclosed ++ (spaced after ++ [')'])))) := by
    rw [hitems]
    simp [spaced, Item.chars, Word.ofKeyword]
  have hchars : (Fragment.mk start b.chars).chars
      = (b.keyword.chars ++ (spaced before ++ [' '])) ++ (k.chars ++ ([' '] ++ (u.enclosed
        ++ (spaced after ++ [')'])))) := by
    show b.chars = _
    rw [chars, hspaced]
    simp
  -- Neither the keyword of the block nor an item before this one holds the keyword.
  have hhead : (Text.occurrences k.chars start b.chars).head?
      = some (start + Text.byteSize (b.keyword.chars ++ (spaced before ++ [' ']))) := by
    have hspace : ' '.utf8Size = 1 := by decide
    rw [chars, Keyword.occurrences_append k (head?_spaced_append b.items (by decide)),
      Keyword.occurrences_chars, if_neg hne, List.nil_append, hspaced,
      occurrences_spaced_append hbefore (by simp), Keyword.occurrences_space,
      Keyword.occurrences_append k (by simp), Keyword.occurrences_chars, if_pos rfl]
    simp [hspace, Nat.add_assoc]
  have hfirst := Section.first_value_of_enclosed (.refl k) hk (by decide) hchars hhead
  rw [if_pos (by decide)] at hfirst
  refine ⟨_, Action.needed_of_some hfirst, rfl, ?_⟩
  apply Section.holds_of_groupAt
  refine ⟨b.keyword.chars ++ (spaced before ++ [' ']) ++ (k.chars ++ [' ']),
    spaced after ++ [')'], ?_, ?_⟩
  . rw [hchars]
    simp
  . rfl

theorem expressionsOf_eq {b : Block} {k : Keyword} (hk : k.form = .value)
    {before after : List Item} {es : List Expression}
    (hitems : b.items = before ++ .word (.ofKeyword k hk) :: .conjunction es :: after)
    (hbefore : ∀ i ∈ before, i.Lacks k) (start : Nat) :
    Action.expressionsOf ⟨start, b.chars⟩ k = .ok (es.map Expression.text) := by
  obtain ⟨s, hneeded, hkeyword, hholds⟩ := needed_eq hk hitems hbefore start
  rw [Action.expressionsOf, hneeded]
  show s.expressions = _
  rw [hholds.expressions_eq, hkeyword, hk, Keyword.Form.trees, Forest.conjuncts_conjunction,
    List.map_map]
  rfl

end Block

/--
An action whose parameters are in order.
-/
structure ActionLayout where
  name : Word
  parameters : List Word
  isBare : name.IsBare ∧ ∀ w ∈ parameters, w.IsBare
  signature : Parameters
  isAccepted : Parameters.ofTokens (parameters.map Word.token) = .ok signature
  preconditions : List Expression
  effects : List Expression

namespace ActionLayout

def action (a : ActionLayout) : Action :=
  ⟨a.name.text, a.signature, a.preconditions.map Expression.text, a.effects.map Expression.text⟩

/--
The printed form `(:action name :parameters (...) :precondition (and ...) :effect (and ...))`.
-/
def block (a : ActionLayout) : Block where
  keyword := .action
  isBlock := rfl
  items := [
    .word a.name,
    .word (.ofKeyword .parameters rfl), .ofWords a.parameters a.isBare.2,
    .word (.ofKeyword .precondition rfl), .conjunction a.preconditions,
    .word (.ofKeyword .effect rfl), .conjunction a.effects
  ]

theorem beforeParen_items (a : ActionLayout) :
    Action.beforeParen (spaced a.block.items ++ [')'])
      =
    spaced ([a.name, .ofKeyword .parameters rfl].map .word) ++ [' '] := by
  have hsplit : ∃ rest, spaced a.block.items ++ [')']
      = (spaced ([a.name, .ofKeyword .parameters rfl].map .word) ++ [' ']) ++ '(' :: rest := by
    refine ⟨(Forest.ofWords a.parameters).chars ++ ')' :: (spaced (a.block.items.drop 3) ++ [')']),
      ?_⟩
    simp [block, spaced, Item.chars, Item.ofWords, Forest.enclosed]
  obtain ⟨rest, hsplit⟩ := hsplit
  have hheader : ∀ c ∈ spaced ([a.name, .ofKeyword .parameters rfl].map .word) ++ [' '],
      (!Action.isParen c) = true := by
    have hword : ∀ w : Word, ∀ c ∈ w.chars, (!Action.isParen c) = true := by
      intro w c hc
      simp [Action.isParen, w.isSolid c hc]
    intro c hc
    simp only [spaced, List.map_cons, List.map_nil, List.flatMap_cons, List.flatMap_nil, Item.chars,
      List.cons_append, List.append_assoc, List.mem_cons, List.mem_append, List.not_mem_nil,
      or_false, false_or] at hc
    rcases hc with rfl | hc | rfl | hc | rfl
    . decide
    . exact hword _ c hc
    . decide
    . exact hword _ c hc
    . decide
  rw [hsplit, Action.beforeParen, List.takeWhile_append_of_pos hheader,
    List.takeWhile_cons_of_neg (by decide), List.append_nil]

theorem name?_chars (a : ActionLayout) : Action.name? a.block.chars = some a.name.chars := by
  have hrest : a.block.chars.drop Keyword.action.size = spaced a.block.items ++ [')'] :=
    List.drop_left
  have hline : Text.IsLine (spaced a.block.items ++ [')']) :=
    (isLine_spaced a.block.items).append (.of_forall (by decide))
  have hlines : Text.lines (spaced a.block.items ++ [')']) = [spaced a.block.items ++ [')']] := by
    apply Text.lines_of_not_mem
    . intro hnewline
      exact (hline.2 _ hnewline).2 rfl
    . simp
  have hname : Action.isTag a.name.chars = false := by
    rw [Action.isTag, beq_eq_false_iff_ne]
    intro hcolon
    exact a.isBare.1 (List.mem_of_mem_head? hcolon)
  have hblank : Text.words [' '] = [] := by
    rw [Text.words_blank (by decide), Text.words_nil]
  -- The name is the last word before the first tag, and the tag here is `:parameters`.
  unfold Action.name?
  simp only [hrest, hlines, List.headD_cons, a.beforeParen_items]
  rw [Text.words_append (by decide), Text.words_spaced, hblank, List.append_nil, List.map_cons,
    List.takeWhile_cons_of_pos (by simp [hname])]
  rfl

theorem parametersOf_eq (a : ActionLayout) (start : Nat) :
    Action.parametersOf ⟨start, a.block.chars⟩ = .ok a.signature := by
  have hbefore : ∀ i ∈ [Item.word a.name], i.Lacks .parameters := by
    rw [List.forall_mem_singleton]
    exact Item.word_lacks a.isBare.1 _
  obtain ⟨s, hneeded, hkeyword, hholds⟩ := Block.needed_eq rfl (b := a.block) rfl hbefore start
  have hparameters := hholds.parameters_eq
  rw [hkeyword, show Keyword.parameters.form = .value from rfl, Keyword.Form.words,
    Text.words_ofWords, Block.map_ofChars, a.isAccepted] at hparameters
  rw [Action.parametersOf, hneeded]
  exact Outcome.mapError_eq_ok.mp hparameters

theorem expressionsOf_precondition (a : ActionLayout) (start : Nat) :
    Action.expressionsOf ⟨start, a.block.chars⟩ .precondition
      =
    .ok (a.preconditions.map Expression.text) := by
  have hbefore : ∀ i ∈ [Item.word a.name, .word (.ofKeyword .parameters rfl),
      .ofWords a.parameters a.isBare.2], i.Lacks .precondition := by
    rw [List.forall_mem_cons, List.forall_mem_cons, List.forall_mem_singleton]
    refine ⟨?_, ?_, ?_⟩
    . exact Item.word_lacks a.isBare.1 _
    . exact Item.keyword_lacks rfl (by decide)
    . exact Item.group_lacks _ _ _ _
  exact Block.expressionsOf_eq rfl rfl hbefore start

theorem expressionsOf_effect (a : ActionLayout) (start : Nat) :
    Action.expressionsOf ⟨start, a.block.chars⟩ .effect
      =
    .ok (a.effects.map Expression.text) := by
  have hbefore : ∀ i ∈ [Item.word a.name, .word (.ofKeyword .parameters rfl),
      .ofWords a.parameters a.isBare.2, .word (.ofKeyword .precondition rfl),
      .conjunction a.preconditions], i.Lacks .effect := by
    rw [List.forall_mem_cons, List.forall_mem_cons, List.forall_mem_cons, List.forall_mem_cons,
      List.forall_mem_singleton]
    refine ⟨?_, ?_, ?_, ?_, ?_⟩
    . exact Item.word_lacks a.isBare.1 _
    . exact Item.keyword_lacks rfl (by decide)
    . exact Item.group_lacks _ _ _ _
    . exact Item.keyword_lacks rfl (by decide)
    . exact Item.group_lacks _ _ _ _
  exact Block.expressionsOf_eq rfl rfl hbefore start

theorem ofFragment_eq (a : ActionLayout) (start : Nat) :
    Action.ofFragment ⟨start, a.block.chars⟩ = .ok a.action := by
  rw [Action.ofFragment_of_name ⟨start, a.block.chars⟩ a.name?_chars, a.parametersOf_eq,
    a.expressionsOf_precondition, a.expressionsOf_effect]
  rfl

end ActionLayout
end PddlOutline
