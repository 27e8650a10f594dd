import PddlOutline.Proofs.Json.Lexeme

/-!
This module contains the reading of JSON, as far as it consists of strings, arrays and objects. A
text is JSON for a value if it spells the lexemes of the value, with space anywhere between them. The
reader finds the value of such a text, and values are printed as such texts in every layout.
-/

namespace PddlOutline
namespace Json

mutual

def lexemes : Json → List Lexeme
  | .str s => [.str s]
  | .arr [] => [.mark .openArray, .mark .closeArray]
  | .arr (item :: items) => .mark .openArray :: lexemes item ++ itemLexemes items
  | .obj [] => [.mark .openObject, .mark .closeObject]
  | .obj ((key, value) :: members) =>
    .mark .openObject :: .str key :: .mark .colon :: lexemes value ++ memberLexemes members

/--
The lexemes behind an item of an array, of which these are the items that remain.
-/
def itemLexemes : List Json → List Lexeme
  | [] => [.mark .closeArray]
  | item :: items => .mark .comma :: lexemes item ++ itemLexemes items

def memberLexemes : List (String × Json) → List Lexeme
  | [] => [.mark .closeObject]
  | (key, value) :: members =>
    .mark .comma :: .str key :: .mark .colon :: lexemes value ++ memberLexemes members

end

/--
Whether a text is JSON for the value `j`.
-/
def IsWritten (j : Json) (cs : List Char) : Prop :=
  Spells j.lexemes cs

/-! Printed values. -/

section Render

variable (layout : Layout) (depth : Nat)

theorem spells_newline {ls : List Lexeme} {cs : List Char} (h : Spells ls cs) :
    Spells ls (layout.newline depth ++ cs) := by
  cases layout with
  | compact => exact h
  | pretty =>
    apply Spells.space rfl
    induction 2 * depth with
    | zero => exact h
    | succ n ih => exact .space rfl ih

theorem hexValue?_hexDigit : ∀ n < 16, hexValue? (hexDigit n) = some n := by
  decide

theorem hexNumber?_control {n : Nat} (h : n < 0x20) :
    hexNumber? ['0', '0', hexDigit (n / 16), hexDigit (n % 16)] = some n := by
  have hzero : hexValue? '0' = some 0 := rfl
  simp only [hexNumber?, List.length_cons, List.length_nil, List.foldlM_cons, List.foldlM_nil,
    hzero, hexValue?_hexDigit (n / 16) (by omega), hexValue?_hexDigit (n % 16) (by omega)]
  show some ((((0 * 16 + 0) * 16 + 0) * 16 + n / 16) * 16 + n % 16) = some n
  congr
  omega

theorem spelling_escape (c : Char) : Spelling c (escape c) := by
  unfold escape
  split
  case h_8 hquote hbackslash _ _ _ _ _ =>
    split
    next hcontrol => exact .unit (hexNumber?_control hcontrol)
    next hcontrol =>
      have hplain : isPlain c := by
        simp only [isPlain, Bool.and_eq_true, decide_eq_true_eq, bne_iff_ne]
        exact ⟨⟨Nat.le_of_not_lt hcontrol, hquote⟩, hbackslash⟩
      exact .plain hplain
  all_goals exact .letter (by decide)

theorem body_escape (cs : List Char) : Body cs (cs.flatMap escape) := by
  induction cs with
  | nil => exact .nil
  | cons c cs ih => exact .cons (spelling_escape c) ih

theorem spells_quote (s : String) {ls : List Lexeme} {cs : List Char} (h : Spells ls cs) :
    Spells (.str s :: ls) (quote s ++ cs) := by
  have := Spells.str (body_escape s.toList) h
  simpa [quote] using this

theorem spells_key (key : String) {ls : List Lexeme} {cs : List Char} (h : Spells ls cs) :
    Spells (.str key :: .mark .colon :: ls) (quote key ++ (layout.colon ++ cs)) := by
  apply spells_quote
  cases layout with
  | compact => exact .mark .colon h
  | pretty => exact .mark .colon (.space rfl h)

mutual

theorem spells_render (depth : Nat) (j : Json) : Spells j.lexemes (render layout depth j) := by
  match j with
  | .str s => simpa [render, lexemes] using spells_quote s .nil
  | .arr [] => exact .mark .openArray (.mark .closeArray .nil)
  | .arr (item :: items) =>
    have hitems := (spells_render (depth + 1) item).append (spells_renderItems depth items)
    have harray := Spells.mark .openArray (spells_newline layout (depth + 1) hitems)
    simpa [render, lexemes, Punctuation.char] using harray
  | .obj [] => exact .mark .openObject (.mark .closeObject .nil)
  | .obj ((key, value) :: members) =>
    have hmembers := (spells_render (depth + 1) value).append (spells_renderMembers depth members)
    have hobject := Spells.mark .openObject
      (spells_newline layout (depth + 1) (spells_key layout key hmembers))
    simpa [render, lexemes, Punctuation.char] using hobject

theorem spells_renderItems (depth : Nat) (items : List Json) :
    Spells (itemLexemes items)
      (renderItems layout (depth + 1) items ++ (layout.newline depth ++ [']'])) := by
  match items with
  | [] => exact spells_newline layout depth (.mark .closeArray .nil)
  | item :: items =>
    have hitems := (spells_render (depth + 1) item).append (spells_renderItems depth items)
    have hcomma := Spells.mark .comma (spells_newline layout (depth + 1) hitems)
    simpa [renderItems, itemLexemes, Punctuation.char] using hcomma

theorem spells_renderMembers (depth : Nat) (members : List (String × Json)) :
    Spells (memberLexemes members)
      (renderMembers layout (depth + 1) members ++ (layout.newline depth ++ ['\x7d'])) := by
  match members with
  | [] => exact spells_newline layout depth (.mark .closeObject .nil)
  | (key, value) :: members =>
    have hmembers := (spells_render (depth + 1) value).append (spells_renderMembers depth members)
    have hcomma := Spells.mark .comma
      (spells_newline layout (depth + 1) (spells_key layout key hmembers))
    simpa [renderMembers, memberLexemes, Punctuation.char] using hcomma

end

theorem isWritten_render (depth : Nat) (j : Json) : j.IsWritten (render layout depth j) :=
  spells_render layout depth j

end Render

/-! The reader goes through the lexemes once and keeps what is still open. -/

/--
An array or an object that is still open, with what was read of it so far. What was read last comes
first.
-/
inductive Frame
  | array (before : List Json)
  | object (before : List (String × Json)) (key : String)

/--
What has to come next, inside the frames that are still open.
-/
inductive State
  | value (outer : List Frame)
  | firstItem (outer : List Frame)
  | firstKey (outer : List Frame)
  | nextKey (outer : List Frame) (before : List (String × Json))
  | colon (outer : List Frame) (before : List (String × Json)) (key : String)
  /-- A value has been read. -/
  | done (outer : List Frame) (j : Json)

namespace State

/--
The state after the first lexeme of a value.
-/
def enter? (outer : List Frame) : Lexeme → Option State
  | .mark .openArray => some (.firstItem outer)
  | .mark .openObject => some (.firstKey outer)
  | .str s => some (.done outer (.str s))
  | _ => none

/--
The state after a comma or a closing bracket behind the value `j`.
-/
def leave? (j : Json) : List Frame → Punctuation → Option State
  | .array before :: outer, .comma => some (.value (.array (j :: before) :: outer))
  | .array before :: outer, .closeArray => some (.done outer (.arr (j :: before).reverse))
  | .object before key :: outer, .comma => some (.nextKey outer ((key, j) :: before))
  | .object before key :: outer, .closeObject =>
    some (.done outer (.obj ((key, j) :: before).reverse))
  | _, _ => none

def step? : State → Lexeme → Option State
  | .value outer, l => enter? outer l
  | .firstItem outer, .mark .closeArray => some (.done outer (.arr []))
  | .firstItem outer, l => enter? (.array [] :: outer) l
  | .firstKey outer, .mark .closeObject => some (.done outer (.obj []))
  | .firstKey outer, .str key => some (.colon outer [] key)
  | .nextKey outer before, .str key => some (.colon outer before key)
  | .colon outer before key, .mark .colon => some (.value (.object before key :: outer))
  | .done outer j, .mark p => leave? j outer p
  | _, _ => none

def run? (s : State) (ls : List Lexeme) : Option State :=
  ls.foldlM step? s

def result? : State → Option Json
  | .done [] j => some j
  | _ => none

end State

def read? (cs : List Char) : Option Json := do
  let ls ← lexemes? cs
  let s ← State.run? (.value []) ls
  s.result?

namespace State

variable {s s' : State} {l : Lexeme} {ls : List Lexeme}

theorem run?_cons (s : State) (l : Lexeme) (ls : List Lexeme) :
    s.run? (l :: ls) = (s.step? l).bind (·.run? ls) :=
  List.foldlM_cons

theorem run?_cons_of_step? (h : s.step? l = some s') (ls : List Lexeme) :
    s.run? (l :: ls) = s'.run? ls := by
  rw [run?_cons, h]
  rfl

/-!
A value is read to its end. The induction is on the value, and the frames around it are arbitrary:
its items are read inside of one frame more.
-/

theorem run?_firstItem (outer : List Frame) (j : Json) (ls : List Lexeme) :
    (State.firstItem outer).run? (j.lexemes ++ ls)
      =
    (State.value (.array [] :: outer)).run? (j.lexemes ++ ls) := by
  match j with
  | .str _ => rfl
  | .arr [] => rfl
  | .arr (_ :: _) => rfl
  | .obj [] => rfl
  | .obj (_ :: _) => rfl

mutual

theorem run?_lexemes (j : Json) (outer : List Frame) (ls : List Lexeme) :
    (State.value outer).run? (j.lexemes ++ ls) = (State.done outer j).run? ls := by
  match j with
  | .str s => rfl
  | .arr [] => rfl
  | .arr (item :: items) =>
    rw [lexemes, List.append_assoc, List.cons_append, run?_cons_of_step? rfl, run?_firstItem,
      run?_lexemes item, run?_itemLexemes items]
    rfl
  | .obj [] => rfl
  | .obj ((key, j) :: members) =>
    rw [lexemes, List.append_assoc]
    simp only [List.cons_append]
    rw [run?_cons_of_step? rfl, run?_cons_of_step? rfl, run?_cons_of_step? rfl, run?_lexemes j,
      run?_memberLexemes members]
    rfl

theorem run?_itemLexemes (items before : List Json) (item : Json) (outer : List Frame)
    (ls : List Lexeme) :
    (State.done (.array before :: outer) item).run? (itemLexemes items ++ ls)
      =
    (State.done outer (.arr (before.reverse ++ item :: items))).run? ls := by
  match items with
  | [] =>
    rw [itemLexemes, List.cons_append, run?_cons_of_step? rfl, List.reverse_cons]
    rfl
  | next :: items =>
    rw [itemLexemes, List.append_assoc, List.cons_append, run?_cons_of_step? rfl,
      run?_lexemes next, run?_itemLexemes items, List.reverse_cons, List.append_assoc]
    rfl

theorem run?_memberLexemes (members before : List (String × Json)) (key : String) (j : Json)
    (outer : List Frame) (ls : List Lexeme) :
    (State.done (.object before key :: outer) j).run? (memberLexemes members ++ ls)
      =
    (State.done outer (.obj (before.reverse ++ (key, j) :: members))).run? ls := by
  match members with
  | [] =>
    rw [memberLexemes, List.cons_append, run?_cons_of_step? rfl, List.reverse_cons]
    rfl
  | (key', next) :: members =>
    rw [memberLexemes, List.append_assoc]
    simp only [List.cons_append]
    rw [run?_cons_of_step? rfl, run?_cons_of_step? rfl, run?_cons_of_step? rfl, run?_lexemes next,
      run?_memberLexemes members, List.reverse_cons, List.append_assoc]
    rfl

end

end State

/-!
Nothing is read but what the lexemes say: every state determines the lexemes that lead to it, and a
step adds one to them.
-/

def itemsLexemes (items : List Json) : List Lexeme :=
  items.flatMap fun j => j.lexemes ++ [.mark .comma]

def membersLexemes (members : List (String × Json)) : List Lexeme :=
  members.flatMap fun (key, j) => .str key :: .mark .colon :: j.lexemes ++ [.mark .comma]

theorem lexemes_arr_concat (items : List Json) (j : Json) :
    (arr (items ++ [j])).lexemes
      =
    .mark .openArray :: itemsLexemes items ++ j.lexemes ++ [.mark .closeArray] := by
  have hitems : ∀ items, itemLexemes (items ++ [j])
      = .mark .comma :: itemsLexemes items ++ j.lexemes ++ [.mark .closeArray] := by
    intro items
    induction items with
    | nil => simp [itemLexemes, itemsLexemes]
    | cons item items ih =>
      rw [List.cons_append, itemLexemes, ih]
      simp [itemsLexemes]
  cases items with
  | nil => simp [lexemes, itemLexemes, itemsLexemes]
  | cons item items =>
    rw [List.cons_append, lexemes, hitems]
    simp [itemsLexemes]

theorem lexemes_obj_concat (members : List (String × Json)) (key : String) (j : Json) :
    (obj (members ++ [(key, j)])).lexemes
      =
    .mark .openObject :: membersLexemes members ++ .str key :: .mark .colon :: j.lexemes
      ++ [.mark .closeObject] := by
  have hmembers : ∀ members, memberLexemes (members ++ [(key, j)])
      = .mark .comma :: membersLexemes members ++ .str key :: .mark .colon :: j.lexemes
        ++ [.mark .closeObject] := by
    intro members
    induction members with
    | nil => simp [memberLexemes, membersLexemes]
    | cons member members ih =>
      rw [List.cons_append, memberLexemes, ih]
      simp [membersLexemes]
  cases members with
  | nil => simp [lexemes, memberLexemes, membersLexemes]
  | cons member members =>
    rw [List.cons_append, lexemes, hmembers]
    simp [membersLexemes]

def Frame.lexemes : Frame → List Lexeme
  | .array before => .mark .openArray :: itemsLexemes before.reverse
  | .object before key =>
    .mark .openObject :: membersLexemes before.reverse ++ [.str key, .mark .colon]

def Frame.outerLexemes (outer : List Frame) : List Lexeme :=
  outer.reverse.flatMap lexemes

namespace State

/--
The lexemes that lead to a state.
-/
def lexemes : State → List Lexeme
  | .value outer => Frame.outerLexemes outer
  | .firstItem outer => Frame.outerLexemes outer ++ [.mark .openArray]
  | .firstKey outer => Frame.outerLexemes outer ++ [.mark .openObject]
  | .nextKey outer before =>
    Frame.outerLexemes outer ++ .mark .openObject :: membersLexemes before.reverse
  | .colon outer before key =>
    Frame.outerLexemes outer ++ .mark .openObject :: membersLexemes before.reverse ++ [.str key]
  | .done outer j => Frame.outerLexemes outer ++ j.lexemes

variable {s s' : State} {l : Lexeme} {ls : List Lexeme} {outer : List Frame}

theorem lexemes_enter? (h : enter? outer l = some s) :
    s.lexemes = Frame.outerLexemes outer ++ [l] := by
  unfold enter? at h
  split at h
  . cases h
    rfl
  . cases h
    rfl
  . cases h
    simp [lexemes, Json.lexemes]
  . cases h

theorem lexemes_leave? {j : Json} {p : Punctuation} (h : leave? j outer p = some s) :
    s.lexemes = Frame.outerLexemes outer ++ j.lexemes ++ [.mark p] := by
  unfold leave? at h
  split at h
  . cases h
    simp [lexemes, Frame.outerLexemes, Frame.lexemes, itemsLexemes]
  . cases h
    simp [lexemes, Frame.outerLexemes, Frame.lexemes, lexemes_arr_concat]
  . cases h
    simp [lexemes, Frame.outerLexemes, Frame.lexemes, membersLexemes]
  . cases h
    simp [lexemes, Frame.outerLexemes, Frame.lexemes, lexemes_obj_concat]
  . cases h

theorem lexemes_step? (h : s.step? l = some s') : s'.lexemes = s.lexemes ++ [l] := by
  unfold step? at h
  split at h
  . exact lexemes_enter? h
  . cases h
    simp [lexemes, Json.lexemes]
  . rw [lexemes_enter? h]
    simp [lexemes, Frame.outerLexemes, Frame.lexemes, itemsLexemes]
  . cases h
    simp [lexemes, Json.lexemes]
  . cases h
    simp [lexemes, membersLexemes]
  . cases h
    simp [lexemes]
  . cases h
    simp [lexemes, Frame.outerLexemes, Frame.lexemes]
  . exact lexemes_leave? h
  . cases h

theorem lexemes_run? (h : s.run? ls = some s') : s'.lexemes = s.lexemes ++ ls := by
  induction ls generalizing s with
  | nil =>
    cases h
    rw [List.append_nil]
  | cons l ls ih =>
    rw [run?_cons] at h
    obtain ⟨next, hstep, h⟩ := Option.bind_eq_some_iff.mp h
    rw [ih h, lexemes_step? hstep, List.append_assoc]
    rfl

end State

/--
The reader finds the value that a text is written JSON for, and there is no other.
-/
theorem read?_eq_some_iff {cs : List Char} {j : Json} : read? cs = some j ↔ j.IsWritten cs := by
  constructor
  . intro h
    obtain ⟨ls, hls, h⟩ := Option.bind_eq_some_iff.mp h
    obtain ⟨s, hrun, h⟩ := Option.bind_eq_some_iff.mp h
    unfold State.result? at h
    split at h
    next =>
      cases h
      have hlexemes : j.lexemes = ls := State.lexemes_run? hrun
      rw [IsWritten, hlexemes]
      exact lexemes?_eq_some_iff.mp hls
    next => cases h
  . intro h
    have hrun : (State.value []).run? j.lexemes = some (.done [] j) := by
      have := State.run?_lexemes j [] []
      rwa [List.append_nil] at this
    rw [read?, lexemes?_eq_some_iff.mpr h, Option.bind_eq_bind, Option.bind_some, hrun]
    rfl

end Json
end PddlOutline
