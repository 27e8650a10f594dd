import PddlOutline.Proofs.Nesting.Forest
import PddlOutline.Proofs.Text.Runs
import PddlOutline.Proofs.Text.Spacing
import PddlOutline.Token

/-!
This module contains what the printed form of domains and problems is made of: words and groups of
parentheses, each behind a single space.
-/

namespace PddlOutline

/--
A name or token of a document.
-/
structure Word where
  chars : List Char
  ne_nil : chars ≠ []
  isSolid : ∀ c ∈ chars, ¬ Text.isBlank c ∧ c ≠ '(' ∧ c ≠ ')' ∧ c ≠ ';'

namespace Word

def text (w : Word) : String :=
  String.ofList w.chars

def token (w : Word) : Token :=
  .ofString w.text

def IsBare (w : Word) : Prop :=
  ':' ∉ w.chars

instance (w : Word) : Decidable w.IsBare :=
  inferInstanceAs (Decidable (':' ∉ w.chars))

theorem not_mem_opening (w : Word) : '(' ∉ w.chars :=
  fun hopening => (w.isSolid _ hopening).2.1 rfl

theorem isWord (w : Word) : Text.IsWord w.chars :=
  ⟨w.ne_nil, fun c hc => (w.isSolid c hc).1⟩

theorem isPlain (w : Word) : Text.IsPlain w.chars :=
  fun c hc => ⟨(w.isSolid c hc).2.1, (w.isSolid c hc).2.2.1⟩

theorem isLine (w : Word) : Text.IsLine w.chars := by
  apply Text.IsLine.of_forall
  intro c hc
  have hsolid := w.isSolid c hc
  refine ⟨?_, hsolid.2.2.2, ?_⟩
  . intro hgap
    exact hsolid.1 (Text.isBlank_of_isGap hgap)
  . rintro rfl
    exact hsolid.1 (by decide)

end Word

/--
An expression of a document, which stands in parentheses on a single line.
-/
structure Expression where
  tree : Forest
  isClean : ∀ c ∈ tree.enclosed, c ≠ ':' ∧ c ≠ ';' ∧ c ≠ '\t' ∧ c ≠ '\n'
  isTight : ¬ [' ', ' '] <:+: tree.enclosed

namespace Expression

def chars (e : Expression) : List Char :=
  e.tree.enclosed

def text (e : Expression) : String :=
  String.ofList e.chars

end Expression

namespace Text

theorem IsSpaced.of_isTight {cs : List Char} (htab : '\t' ∉ cs) (htight : ¬ [' ', ' '] <:+: cs)
    (hlast : cs.getLast? ≠ some ' ') : IsSpaced isGap cs := by
  induction cs with
  | nil => exact trivial
  | cons c cs ih =>
    rw [List.mem_cons, not_or] at htab
    constructor
    . intro hc
      rw [isGap, Bool.or_eq_true, beq_iff_eq, beq_iff_eq] at hc
      have hspace : c = ' ' := by
        cases hc with
        | inl hc => exact hc
        | inr hc => exact absurd hc.symm htab.1
      subst hspace
      cases cs with
      | nil => simp at hlast
      | cons d cs =>
        refine ⟨rfl, d, rfl, ?_⟩
        intro hd
        rw [isGap, Bool.or_eq_true, beq_iff_eq, beq_iff_eq] at hd
        rcases hd with rfl | rfl
        . exact htight ⟨[], cs, rfl⟩
        . exact htab.2 List.mem_cons_self
    . apply ih htab.2
      . intro hdouble
        exact htight (hdouble.trans (List.suffix_cons c cs).isInfix)
      . cases cs with
        | nil => simp
        | cons d cs => simpa [List.getLast?_cons_cons] using hlast

end Text

theorem Expression.isLine (e : Expression) : Text.IsLine e.chars := by
  refine ⟨?_, fun c hc => ?_⟩
  . apply Text.IsSpaced.of_isTight
    . intro htab
      exact (e.isClean _ htab).2.2.1 rfl
    . exact e.isTight
    . rw [chars, Forest.enclosed, ← List.cons_append, List.getLast?_concat]
      decide
  . have hclean := e.isClean c hc
    exact ⟨hclean.2.1, hclean.2.2.2⟩

inductive Item
  | word (w : Word)
  | group (t : Forest) (isLine : Text.IsLine t.enclosed) (isBare : ':' ∉ t.enclosed)

namespace Item

def ofExpression (e : Expression) : Item :=
  .group e.tree e.isLine fun h => (e.isClean _ h).1 rfl

def chars : Item → List Char
  | word w => w.chars
  | group t .. => t.enclosed

def trees : Item → List Forest
  | word _ => []
  | group t .. => [t]

theorem isLine (i : Item) : Text.IsLine i.chars := by
  cases i with
  | word w => exact w.isLine
  | group t isLine isBare => exact isLine

theorem isLine_space (i : Item) : Text.IsLine (' ' :: i.chars) := by
  have hline := i.isLine
  cases i with
  | word w =>
    obtain ⟨c, cs, hw⟩ := List.exists_cons_of_ne_nil w.ne_nil
    rw [chars, hw] at hline ⊢
    apply hline.space
    intro hgap
    exact (w.isSolid c (by simp [hw])).1 (Text.isBlank_of_isGap hgap)
  | group t _ _ =>
    apply hline.space
    decide

end Item

def spaced (items : List Item) : List Char :=
  items.flatMap fun i => ' ' :: i.chars

theorem not_mem_spaced {items : List Item} {c : Char} (hc : c ≠ ' ')
    (h : ∀ i ∈ items, c ∉ i.chars) : c ∉ spaced items := by
  intro hmem
  obtain ⟨i, hi, hmem⟩ := List.mem_flatMap.mp hmem
  cases List.mem_cons.mp hmem with
  | inl hspace => exact hc hspace
  | inr hmem => exact h i hi hmem

theorem isLine_spaced (items : List Item) : Text.IsLine (spaced items) := by
  induction items with
  | nil => exact .of_forall (by simp [spaced])
  | cons i items ih => exact i.isLine_space.append ih

namespace Forest

def ofItems : List Item → Forest
  | [] => .nil
  | .word w :: items =>
    .plain ' ' (by decide) (.prepend w.chars w.isPlain (ofItems items))
  | .group t .. :: items => .plain ' ' (by decide) (.group t (ofItems items))

/--
Words with a single space between each two of them.
-/
def ofWords : List Word → Forest
  | [] => .nil
  | w :: ws => .prepend w.chars w.isPlain (ofItems (ws.map .word))

@[simp]
theorem chars_ofItems (items : List Item) : (ofItems items).chars = spaced items := by
  induction items with
  | nil => rfl
  | cons i items ih =>
    cases i with
    | word w => simp [ofItems, chars, ih, spaced, Item.chars]
    | group t _ _ => simp [ofItems, chars, ih, spaced, Item.chars, enclosed]

@[simp]
theorem trees_ofItems (items : List Item) : (ofItems items).trees = items.flatMap Item.trees := by
  induction items with
  | nil => rfl
  | cons i items ih =>
    cases i with
    | word w => simp [ofItems, trees, ih, Item.trees]
    | group t _ _ => simp [ofItems, trees, ih, Item.trees]

theorem trees_ofExpressions (es : List Expression) :
    (ofItems (es.map .ofExpression)).trees = es.map Expression.tree := by
  rw [trees_ofItems, List.flatMap_map]
  induction es with
  | nil => rfl
  | cons e es ih => exact congrArg (e.tree :: ·) ih

end Forest

namespace Text

theorem head?_spaced (items : List Item) : ∀ c ∈ (spaced items).head?, isBlank c := by
  cases items with
  | nil => simp [spaced]
  | cons i items =>
    intro c hc
    have hspace : ' ' = c := by simpa [spaced] using hc
    rw [← hspace]
    decide

theorem words_spaced (ws : List Word) : words (spaced (ws.map .word)) = ws.map Word.chars := by
  induction ws with
  | nil => exact words_nil
  | cons w ws ih =>
    have hcons : spaced ((w :: ws).map .word) = ' ' :: (w.chars ++ spaced (ws.map .word)) := by
      simp [spaced, Item.chars]
    rw [hcons, words_blank (by decide), words_append (head?_spaced _), w.isWord.words_eq, ih,
      List.map_cons, List.singleton_append]

theorem words_ofWords (ws : List Word) : words (Forest.ofWords ws).chars = ws.map Word.chars := by
  cases ws with
  | nil => exact words_nil
  | cons w ws =>
    rw [Forest.ofWords, Forest.chars_prepend, Forest.chars_ofItems, words_append (head?_spaced _),
      w.isWord.words_eq, words_spaced, List.map_cons, List.singleton_append]

end Text
end PddlOutline
