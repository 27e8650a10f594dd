import PddlOutline.Json.Basic

/-!
This module contains the lexemes of JSON, punctuation and strings, and the reading of a text as a
list of lexemes. A string may be spelled in many ways, since any of its characters may be escaped.
-/

namespace PddlOutline
namespace Json

inductive Punctuation
  | openArray
  | closeArray
  | openObject
  | closeObject
  | comma
  | colon
deriving Repr, DecidableEq

namespace Punctuation

def char : Punctuation → Char
  | .openArray => '['
  | .closeArray => ']'
  | .openObject => '\x7b'
  | .closeObject => '\x7d'
  | .comma => ','
  | .colon => ':'

def ofChar? (c : Char) : Option Punctuation :=
  [openArray, closeArray, openObject, closeObject, comma, colon].find? (·.char = c)

theorem ofChar?_eq_some_iff {c : Char} {p : Punctuation} : ofChar? c = some p ↔ p.char = c := by
  constructor
  . intro h
    simpa using List.find?_some h
  . rintro rfl
    cases p <;> rfl

end Punctuation

inductive Lexeme
  | mark (p : Punctuation)
  | str (s : String)
deriving Repr, DecidableEq

def isSpace (c : Char) : Bool :=
  c == ' ' || c == '\t' || c == '\n' || c == '\r'

/--
Whether a character may stand for itself in a string.
-/
def isPlain (c : Char) : Bool :=
  0x20 ≤ c.toNat && c != '"' && c != '\\'

/--
The letters that may follow a backslash, with the characters that they stand for then.
-/
def letterEscapes : List (Char × Char) :=
  [('"', '"'), ('\\', '\\'), ('/', '/'), ('b', '\x08'), ('f', '\x0c'), ('n', '\n'), ('r', '\r'),
    ('t', '\t')]

def hexValue? (c : Char) : Option Nat :=
  if '0' ≤ c ∧ c ≤ '9' then
    some (c.toNat - 48)
  else if 'a' ≤ c ∧ c ≤ 'f' then
    some (c.toNat - 87)
  else if 'A' ≤ c ∧ c ≤ 'F' then
    some (c.toNat - 55)
  else
    none

/--
The number that four hexadecimal digits make.
-/
def hexNumber? (digits : List Char) : Option Nat :=
  if digits.length = 4 then
    digits.foldlM (fun n c => (hexValue? c).map (n * 16 + ·)) 0
  else
    none

def isHighSurrogate (n : Nat) : Bool :=
  0xD800 ≤ n && n < 0xDC00

def isLowSurrogate (n : Nat) : Bool :=
  0xDC00 ≤ n && n < 0xE000

/--
The number of the character that a pair of surrogates stands for.
-/
def ofSurrogates (high low : Nat) : Nat :=
  0x10000 + (high - 0xD800) * 0x400 + (low - 0xDC00)

/--
The spellings of a character in a string.
-/
inductive Spelling : Char → List Char → Prop
  | plain {c : Char} (h : isPlain c) : Spelling c [c]
  | letter {c e : Char} (h : (e, c) ∈ letterEscapes) : Spelling c ['\\', e]
  | unit {c : Char} {digits : List Char} (h : hexNumber? digits = some c.toNat) :
    Spelling c ('\\' :: 'u' :: digits)
  | surrogates {c : Char} {digits digits' : List Char} {high low : Nat}
    (hdigits : hexNumber? digits = some high) (hdigits' : hexNumber? digits' = some low)
    (hhigh : isHighSurrogate high) (hlow : isLowSurrogate low)
    (hc : c.toNat = ofSurrogates high low) :
    Spelling c ('\\' :: 'u' :: (digits ++ '\\' :: 'u' :: digits'))

def hexUnit? (cs : List Char) : Option (Nat × List Char) :=
  (hexNumber? (cs.take 4)).map fun n => (n, cs.drop 4)

/--
The character that ends with the escape of a low surrogate, which has to come next.
-/
def lowSurrogate? (high : Nat) : List Char → Option (Char × List Char)
  | '\\' :: 'u' :: cs => do
    let (low, cs) ← hexUnit? cs
    if isLowSurrogate low then some (Char.ofNat (ofSurrogates high low), cs) else none
  | _ => none

def unit? (cs : List Char) : Option (Char × List Char) := do
  let (n, cs) ← hexUnit? cs
  if isHighSurrogate n then
    lowSurrogate? n cs
  else if isLowSurrogate n then
    none
  else
    some (Char.ofNat n, cs)

/--
The first character that a text spells, and what follows its spelling.
-/
def char? : List Char → Option (Char × List Char)
  | '\\' :: 'u' :: cs => unit? cs
  | '\\' :: e :: cs => (letterEscapes.lookup e).map fun c => (c, cs)
  | c :: cs => if isPlain c then some (c, cs) else none
  | [] => none

theorem hexUnit?_eq_some_iff {cs rest : List Char} {n : Nat} :
    hexUnit? cs = some (n, rest) ↔
      ∃ digits, cs = digits ++ rest ∧ hexNumber? digits = some n := by
  rw [hexUnit?, Option.map_eq_some_iff]
  constructor
  . rintro ⟨n, hn, h⟩
    cases h
    exact ⟨cs.take 4, (List.take_append_drop 4 cs).symm, hn⟩
  . rintro ⟨digits, rfl, hn⟩
    have hlength : digits.length = 4 := by
      unfold hexNumber? at hn
      split at hn
      . assumption
      . cases hn
    refine ⟨n, ?_, ?_⟩
    . rw [← hlength, List.take_left, hn]
    . rw [← hlength, List.drop_left]

theorem hexValue?_lt {c : Char} {n : Nat} (h : hexValue? c = some n) : n < 16 := by
  have htoNat : ∀ a b : Char, a ≤ b → a.toNat ≤ b.toNat := fun _ _ hle => hle
  unfold hexValue? at h
  split at h
  next hdigit =>
    have : c.toNat ≤ 57 := htoNat _ _ hdigit.2
    cases h
    omega
  next =>
    split at h
    next hletter =>
      have : c.toNat ≤ 102 := htoNat _ _ hletter.2
      cases h
      omega
    next =>
      split at h
      next hletter =>
        have : c.toNat ≤ 70 := htoNat _ _ hletter.2
        cases h
        omega
      next => cases h

theorem hexNumber?_lt {digits : List Char} {n : Nat} (h : hexNumber? digits = some n) :
    n < 0x10000 := by
  have hfold : ∀ (digits : List Char) (m n : Nat),
      digits.foldlM (fun n c => (hexValue? c).map (n * 16 + ·)) m = some n →
        n < (m + 1) * 16 ^ digits.length := by
    intro digits
    induction digits with
    | nil =>
      intro m n h
      cases h
      simp
    | cons c digits ih =>
      intro m n h
      rw [List.foldlM_cons] at h
      obtain ⟨m', hm', h⟩ := Option.bind_eq_some_iff.mp h
      obtain ⟨value, hvalue, rfl⟩ := Option.map_eq_some_iff.mp hm'
      have hvalue := hexValue?_lt hvalue
      calc n < (m * 16 + value + 1) * 16 ^ digits.length := ih _ _ h
        _ ≤ (m + 1) * 16 * 16 ^ digits.length := Nat.mul_le_mul_right _ (by omega)
        _ = (m + 1) * 16 ^ (digits.length + 1) := by rw [Nat.mul_assoc, ← Nat.pow_succ']
  unfold hexNumber? at h
  split at h
  next hlength =>
    have := hfold digits 0 n h
    rw [hlength] at this
    omega
  next => cases h

theorem toNat_ofNat {n : Nat} (h : n.isValidChar) : (Char.ofNat n).toNat = n := by
  rw [Char.ofNat, dif_pos h]
  rfl

theorem isValidChar_of_not_surrogate {n : Nat} (hn : n < 0x10000) (hhigh : ¬ isHighSurrogate n)
    (hlow : ¬ isLowSurrogate n) : n.isValidChar := by
  simp only [isHighSurrogate, isLowSurrogate, Bool.and_eq_true, decide_eq_true_eq] at hhigh hlow
  unfold Nat.isValidChar
  omega

theorem isValidChar_ofSurrogates {high low : Nat} (hhigh : isHighSurrogate high)
    (hlow : isLowSurrogate low) : (ofSurrogates high low).isValidChar := by
  simp only [isHighSurrogate, isLowSurrogate, Bool.and_eq_true, decide_eq_true_eq] at hhigh hlow
  unfold Nat.isValidChar ofSurrogates
  omega

theorem not_isSurrogate_toNat (c : Char) :
    ¬ isHighSurrogate c.toNat ∧ ¬ isLowSurrogate c.toNat := by
  have hvalid : c.toNat < 0xD800 ∨ 0xDFFF < c.toNat ∧ c.toNat < 0x110000 := c.valid
  simp only [isHighSurrogate, isLowSurrogate, Bool.and_eq_true, decide_eq_true_eq]
  omega

variable {cs rest : List Char} {c : Char}

theorem exists_spelling_of_unit? (h : unit? cs = some (c, rest)) :
    ∃ word, Spelling c ('\\' :: 'u' :: word) ∧ cs = word ++ rest := by
  obtain ⟨⟨n, behind⟩, hunit, hbehind⟩ := Option.bind_eq_some_iff.mp h
  obtain ⟨digits, rfl, hn⟩ := hexUnit?_eq_some_iff.mp hunit
  simp only at hbehind
  clear h hunit
  split at hbehind
  next hhigh =>
    unfold lowSurrogate? at hbehind
    split at hbehind
    next behind =>
      obtain ⟨⟨low, behind'⟩, hunit, hlow'⟩ := Option.bind_eq_some_iff.mp hbehind
      obtain ⟨digits', rfl, hlow⟩ := hexUnit?_eq_some_iff.mp hunit
      simp only [Option.ite_none_right_eq_some, Option.some.injEq, Prod.mk.injEq] at hlow'
      obtain ⟨hlow', rfl, rfl⟩ := hlow'
      refine ⟨digits ++ '\\' :: 'u' :: digits', ?_, by simp⟩
      exact .surrogates hn hlow hhigh hlow' (toNat_ofNat (isValidChar_ofSurrogates hhigh hlow'))
    next => cases hbehind
  next hhigh =>
    split at hbehind
    next => cases hbehind
    next hlow =>
      cases hbehind
      have hvalid := isValidChar_of_not_surrogate (hexNumber?_lt hn) hhigh hlow
      exact ⟨digits, .unit (by rw [toNat_ofNat hvalid, hn]), rfl⟩

theorem exists_spelling_of_char? (h : char? cs = some (c, rest)) :
    ∃ word, Spelling c word ∧ cs = word ++ rest := by
  unfold char? at h
  split at h
  next cs =>
    obtain ⟨word, hspelling, rfl⟩ := exists_spelling_of_unit? h
    exact ⟨_, hspelling, rfl⟩
  next e cs _ =>
    obtain ⟨c, hlookup, h⟩ := Option.map_eq_some_iff.mp h
    obtain ⟨before, after, hletters, _⟩ := List.lookup_eq_some_iff.mp hlookup
    cases h
    exact ⟨['\\', e], .letter (by simp [hletters]), rfl⟩
  next =>
    split at h
    next hplain =>
      cases h
      exact ⟨[c], .plain hplain, rfl⟩
    next => cases h
  next => cases h

theorem unit?_of_number {digits : List Char} (h : hexNumber? digits = some c.toNat)
    (rest : List Char) : unit? (digits ++ rest) = some (c, rest) := by
  have hunit : hexUnit? (digits ++ rest) = some (c.toNat, rest) :=
    hexUnit?_eq_some_iff.mpr ⟨digits, rfl, h⟩
  obtain ⟨hhigh, hlow⟩ := not_isSurrogate_toNat c
  rw [unit?, hunit]
  simp [hhigh, hlow]

theorem unit?_of_surrogates {digits digits' : List Char} {high low : Nat}
    (hdigits : hexNumber? digits = some high) (hdigits' : hexNumber? digits' = some low)
    (hhigh : isHighSurrogate high) (hlow : isLowSurrogate low)
    (hc : c.toNat = ofSurrogates high low) (rest : List Char) :
    unit? (digits ++ '\\' :: 'u' :: digits' ++ rest) = some (c, rest) := by
  have hunit : hexUnit? (digits ++ '\\' :: 'u' :: digits' ++ rest)
      = some (high, '\\' :: 'u' :: (digits' ++ rest)) :=
    hexUnit?_eq_some_iff.mpr ⟨digits, by simp, hdigits⟩
  have hunit' : hexUnit? (digits' ++ rest) = some (low, rest) :=
    hexUnit?_eq_some_iff.mpr ⟨digits', rfl, hdigits'⟩
  rw [unit?, hunit]
  simp [hhigh, lowSurrogate?, hunit', hlow, ← hc]

theorem char?_of_spelling {word : List Char} (h : Spelling c word) (rest : List Char) :
    char? (word ++ rest) = some (c, rest) := by
  cases h with
  | plain h =>
    have hne : c ≠ '\\' := by
      rintro rfl
      cases h
    simp [char?, h, hne]
  | letter h =>
    simp only [letterEscapes, List.mem_cons, Prod.mk.injEq, List.not_mem_nil, or_false] at h
    rcases h with ⟨rfl, rfl⟩ | ⟨rfl, rfl⟩ | ⟨rfl, rfl⟩ | ⟨rfl, rfl⟩ | ⟨rfl, rfl⟩ | ⟨rfl, rfl⟩
      | ⟨rfl, rfl⟩ | ⟨rfl, rfl⟩ <;> rfl
  | unit h => exact unit?_of_number h rest
  | surrogates hdigits hdigits' hhigh hlow hc =>
    have := unit?_of_surrogates hdigits hdigits' hhigh hlow hc rest
    simpa [char?] using this

theorem Spelling.exists_cons {word : List Char} (h : Spelling c word) :
    ∃ d rest, word = d :: rest ∧ d ≠ '"' := by
  cases h with
  | plain h =>
    refine ⟨c, [], rfl, ?_⟩
    rintro rfl
    cases h
  | letter h => exact ⟨_, _, rfl, by decide⟩
  | unit h => exact ⟨_, _, rfl, by decide⟩
  | surrogates => exact ⟨_, _, rfl, by decide⟩

theorem length_lt_of_char? (h : char? cs = some (c, rest)) : rest.length < cs.length := by
  obtain ⟨word, hspelling, rfl⟩ := exists_spelling_of_char? h
  obtain ⟨d, word, rfl, _⟩ := hspelling.exists_cons
  simp only [List.cons_append, List.length_cons, List.length_append]
  omega

/--
The spellings of a text in a string.
-/
inductive Body : List Char → List Char → Prop
  | nil : Body [] []
  | cons {c : Char} {word cs body : List Char} (hc : Spelling c word) (h : Body cs body) :
    Body (c :: cs) (word ++ body)

/--
The text that is spelled up to the next quotation mark, and what follows the quotation mark.
-/
def body? (cs : List Char) : Option (List Char × List Char) :=
  if cs.head? = some '"' then
    some ([], cs.tail)
  else
    match _h : char? cs with
    | none => none
    | some (c, behind) => (body? behind).map fun (text, rest) => (c :: text, rest)
termination_by cs.length
decreasing_by exact length_lt_of_char? _h

theorem exists_body_of_body? {text : List Char} (h : body? cs = some (text, rest)) :
    ∃ body, Body text body ∧ cs = body ++ '"' :: rest := by
  fun_induction body? cs generalizing text with
  | case1 cs hquote =>
    cases h
    obtain ⟨cs, rfl⟩ := List.head?_eq_some_iff.mp hquote
    exact ⟨[], .nil, rfl⟩
  | case2 => cases h
  | case3 cs _ c behind hchar ih =>
    obtain ⟨⟨text, rest⟩, hbody, h⟩ := Option.map_eq_some_iff.mp h
    cases h
    obtain ⟨word, hspelling, rfl⟩ := exists_spelling_of_char? hchar
    obtain ⟨body, htext, rfl⟩ := ih hbody
    exact ⟨word ++ body, .cons hspelling htext, by simp⟩

theorem body?_of_body {text body : List Char} (h : Body text body) (rest : List Char) :
    body? (body ++ '"' :: rest) = some (text, rest) := by
  induction h with
  | nil =>
    rw [body?]
    rfl
  | @cons c word text body hc _ ih =>
    have hchar := char?_of_spelling hc (body ++ '"' :: rest)
    obtain ⟨d, word, rfl, hd⟩ := hc.exists_cons
    rw [body?, if_neg (by simpa using hd), List.append_assoc]
    split
    next hnone => cases hnone.symm.trans hchar
    next hsome =>
      cases hsome.symm.trans hchar
      rw [ih]
      rfl

/--
The spellings of a list of lexemes, between which there may be space.
-/
inductive Spells : List Lexeme → List Char → Prop
  | nil : Spells [] []
  | space {c : Char} {ls : List Lexeme} {cs : List Char} (hc : isSpace c) (h : Spells ls cs) :
    Spells ls (c :: cs)
  | mark {ls : List Lexeme} {cs : List Char} (p : Punctuation) (h : Spells ls cs) :
    Spells (.mark p :: ls) (p.char :: cs)
  | str {s : String} {ls : List Lexeme} {body cs : List Char} (hs : Body s.toList body)
    (h : Spells ls cs) : Spells (.str s :: ls) ('"' :: body ++ '"' :: cs)

/--
The lexemes that a text spells.
-/
def lexemes? (cs : List Char) : Option (List Lexeme) :=
  match cs with
  | [] => some []
  | c :: cs =>
    if isSpace c then
      lexemes? cs
    else if c = '"' then
      match _h : body? cs with
      | none => none
      | some (text, rest) => (lexemes? rest).map (.str (String.ofList text) :: ·)
    else
      match Punctuation.ofChar? c with
      | none => none
      | some p => (lexemes? cs).map (.mark p :: ·)
termination_by cs.length
decreasing_by
  . simp
  . obtain ⟨body, _, rfl⟩ := exists_body_of_body? _h
    simp only [List.length_cons, List.length_append]
    omega
  . simp

theorem Spells.append {ls ls' : List Lexeme} {cs cs' : List Char} (h : Spells ls cs)
    (h' : Spells ls' cs') : Spells (ls ++ ls') (cs ++ cs') := by
  induction h with
  | nil => exact h'
  | space hc _ ih => exact .space hc ih
  | mark p _ ih => exact .mark p ih
  | @str s ls body cs hs _ ih =>
    have := Spells.str hs ih
    simpa using this

theorem lexemes?_eq_some_iff {ls : List Lexeme} : lexemes? cs = some ls ↔ Spells ls cs := by
  constructor
  . intro h
    fun_induction lexemes? cs generalizing ls with
    | case1 =>
      cases h
      exact .nil
    | case2 c cs hspace ih => exact .space hspace (ih h)
    | case3 => cases h
    | case4 cs text rest hbody _ ih =>
      obtain ⟨ls, hls, rfl⟩ := Option.map_eq_some_iff.mp h
      obtain ⟨body, htext, rfl⟩ := exists_body_of_body? hbody
      exact .str (by rwa [String.toList_ofList]) (ih hls)
    | case5 => cases h
    | case6 c cs _ _ p hp ih =>
      obtain ⟨ls, hls, rfl⟩ := Option.map_eq_some_iff.mp h
      rw [← Punctuation.ofChar?_eq_some_iff.mp hp]
      exact .mark p (ih hls)
  . intro h
    induction h with
    | nil => rw [lexemes?]
    | space hc _ ih => rw [lexemes?, if_pos hc, ih]
    | mark p _ ih =>
      have hspace : ¬ isSpace p.char := by cases p <;> decide
      have hquote : p.char ≠ '"' := by cases p <;> decide
      rw [lexemes?, if_neg hspace, if_neg hquote, Punctuation.ofChar?_eq_some_iff.mpr rfl, ih]
      rfl
    | @str s ls body cs hs _ ih =>
      have hbody := body?_of_body hs cs
      rw [List.cons_append, lexemes?, if_neg (by decide), if_pos rfl]
      split
      next hnone => cases hnone.symm.trans hbody
      next hsome =>
        cases hsome.symm.trans hbody
        rw [ih, String.ofList_toList]
        rfl

example : lexemes? "[ \"\\/ \\u00E9\\uD83D\\ude00\"\n]".toList
    = some [.mark .openArray, .str "/ é😀", .mark .closeArray] := by decide +kernel

end Json
end PddlOutline
