/-!
This module contains the measures that the rest of the library takes of a text: which characters
are blank, how many bytes a text has in UTF-8, and which part of it lies between two byte offsets.

Texts are lists of characters. Offsets count bytes, so not every offset is the place of a
character: `slice?` answers `none` for the others, and `slice?_eq_some_iff` says exactly when it
answers at all.
-/

namespace PddlOutline
namespace Text

/-! What is said of the characters in a text is decided by going through them alone. -/

section Decidable

variable (p : Char → Prop) [DecidablePred p]

instance (priority := 10000) decidableForallMem (cs : List Char) : Decidable (∀ c ∈ cs, p c) :=
  List.decidableBAll p cs

instance (priority := 10000) decidableForallMemOption (o : Option Char) :
    Decidable (∀ c ∈ o, p c) :=
  Option.decidableForallMem o

instance (priority := 10000) decidableExistsMemOption (o : Option Char) :
    Decidable (∃ c ∈ o, p c) :=
  Option.decidableExistsMem o

end Decidable

/--
The characters of the Unicode property White_Space.
-/
def isBlank (c : Char) : Bool :=
  let n := c.toNat
  (0x9 ≤ n && n ≤ 0xD) || n == 0x20 || n == 0x85 || n == 0xA0 || n == 0x1680
    || (0x2000 ≤ n && n ≤ 0x200A) || n == 0x2028 || n == 0x2029 || n == 0x202F
    || n == 0x205F || n == 0x3000

def byteSize (cs : List Char) : Nat :=
  cs.foldr (fun c size => c.utf8Size + size) 0

@[simp]
theorem byteSize_nil : byteSize [] = 0 := rfl

@[simp]
theorem byteSize_cons (c : Char) (cs : List Char) :
    byteSize (c :: cs) = c.utf8Size + byteSize cs := rfl

@[simp]
theorem byteSize_append (as bs : List Char) :
    byteSize (as ++ bs) = byteSize as + byteSize bs := by
  induction as with
  | nil => simp
  | cons a as ih => rw [List.cons_append, byteSize_cons, byteSize_cons, ih, Nat.add_assoc]

theorem length_le_byteSize (cs : List Char) : cs.length ≤ byteSize cs := by
  induction cs with
  | nil => simp
  | cons c cs ih =>
    have := c.utf8Size_pos
    simp only [List.length_cons, byteSize_cons]
    omega

def dropBytes? : List Char → Nat → Option (List Char)
  | cs, 0 => some cs
  | [], _ + 1 => none
  | c :: cs, n + 1 => if c.utf8Size ≤ n + 1 then dropBytes? cs (n + 1 - c.utf8Size) else none

def takeBytes? (cs : List Char) (n : Nat) : Option (List Char) :=
  (dropBytes? cs n).map fun rest => cs.take (cs.length - rest.length)

/--
The part of a text from the byte offset `first` up to the byte offset `stop`, which does not belong
to it. Both offsets have to be at the boundary of a character.
-/
def slice? (cs : List Char) (first stop : Nat) : Option (List Char) :=
  if first ≤ stop then (dropBytes? cs first).bind (takeBytes? · (stop - first)) else none

theorem dropBytes?_append (as bs : List Char) : dropBytes? (as ++ bs) (byteSize as) = some bs := by
  induction as with
  | nil => cases bs <;> rfl
  | cons a as ih =>
    have ha := a.utf8Size_pos
    obtain ⟨n, hn⟩ : ∃ n, a.utf8Size + byteSize as = n + 1 :=
      ⟨a.utf8Size + byteSize as - 1, by omega⟩
    simp only [List.cons_append, byteSize_cons, hn, dropBytes?]
    rw [if_pos (by omega), show n + 1 - a.utf8Size = byteSize as by omega, ih]

theorem dropBytes?_eq_some_iff {cs : List Char} {n : Nat} {rest : List Char} :
    dropBytes? cs n = some rest ↔ ∃ front, cs = front ++ rest ∧ byteSize front = n := by
  constructor
  . intro h
    fun_induction dropBytes? cs n with
    | case1 cs => exact ⟨[], by simp_all⟩
    | case2 => simp at h
    | case3 c cs n hle ih =>
      obtain ⟨front, hcs, hn⟩ := ih h
      exact ⟨c :: front, by simp [hcs], by simp [hn]; omega⟩
    | case4 => simp at h
  . rintro ⟨front, rfl, rfl⟩
    exact dropBytes?_append front rest

theorem takeBytes?_eq_some_iff {cs : List Char} {n : Nat} {front : List Char} :
    takeBytes? cs n = some front ↔ ∃ rest, cs = front ++ rest ∧ byteSize front = n := by
  simp only [takeBytes?, Option.map_eq_some_iff, dropBytes?_eq_some_iff]
  constructor
  . rintro ⟨rest, ⟨front', rfl, hn⟩, rfl⟩
    exact ⟨rest, by simp, by simpa using hn⟩
  . rintro ⟨rest, rfl, hn⟩
    exact ⟨rest, ⟨front, rfl, hn⟩, by simp⟩

theorem slice?_eq_some_iff {cs : List Char} {first stop : Nat} {part : List Char} :
    slice? cs first stop = some part ↔
      ∃ front rest, cs = front ++ part ++ rest ∧ byteSize front = first
        ∧ byteSize front + byteSize part = stop := by
  unfold slice?
  split
  next hle =>
    simp only [Option.bind_eq_some_iff, dropBytes?_eq_some_iff, takeBytes?_eq_some_iff]
    constructor
    . rintro ⟨_, ⟨front, rfl, rfl⟩, rest, rfl, hpart⟩
      exact ⟨front, rest, by simp, rfl, by omega⟩
    . rintro ⟨front, rest, rfl, rfl, hstop⟩
      exact ⟨part ++ rest, ⟨front, by simp, rfl⟩, rest, rfl, by omega⟩
  next hle =>
    constructor
    . simp
    . rintro ⟨front, rest, _, _, _⟩
      omega

/--
Equality up to the case of ASCII letters.
-/
def sameLetters (as bs : List Char) : Bool :=
  as.map Char.toLower == bs.map Char.toLower

def startsWith (word cs : List Char) : Bool :=
  sameLetters word (cs.take word.length)

/--
Byte offsets at which `word` occurs, up to the case of ASCII letters, in a text that starts at
`offset`.
-/
def occurrences (word : List Char) (offset : Nat) : List Char → List Nat
  | [] => []
  | c :: cs =>
    if startsWith word (c :: cs) then
      offset :: occurrences word (offset + c.utf8Size) cs
    else
      occurrences word (offset + c.utf8Size) cs

/--
The first answer of `f` on a text, on this text without its first character, and so on until
nothing is left.
-/
def firstMatch (f : List Char → Option α) : List Char → Option α
  | [] => f []
  | c :: cs =>
    match f (c :: cs) with
    | some a => some a
    | none => firstMatch f cs

def trimStart (cs : List Char) : List Char :=
  cs.dropWhile isBlank

def trim (cs : List Char) : List Char :=
  (trimStart (trimStart cs).reverse).reverse

def allBlank (cs : List Char) : Bool :=
  cs.all isBlank

/--
Replace each run of characters in `p` by a single space.
-/
def collapse (p : Char → Bool) (cs : List Char) : List Char :=
  cs.foldr (fun c rest =>
    if p c then
      if rest.head? = some ' ' then rest else ' ' :: rest
    else
      c :: rest) []

@[simp]
theorem collapse_nil (p : Char → Bool) : collapse p [] = [] := rfl

theorem collapse_cons (p : Char → Bool) (c : Char) (cs : List Char) :
    collapse p (c :: cs) =
      if p c then
        if (collapse p cs).head? = some ' ' then collapse p cs else ' ' :: collapse p cs
      else
        c :: collapse p cs := rfl

theorem length_dropWhile_le (p : α → Bool) (as : List α) :
    (as.dropWhile p).length ≤ as.length :=
  (List.dropWhile_suffix p).length_le

/--
Where one thing is in a list of two parts.
-/
theorem append_cons_cases {as bs front rest : List α} {a : α}
    (h : front ++ rest = as ++ a :: bs) :
    (∃ part, front = as ++ a :: part ∧ bs = part ++ rest)
      ∨ ∃ part, as = front ++ part ∧ rest = part ++ a :: bs := by
  rcases List.append_eq_append_iff.mp h with ⟨part, has, hrest⟩ | ⟨part, hfront, hbs⟩
  . exact .inr ⟨part, has, hrest⟩
  . cases part with
    | nil => exact .inr ⟨[], by simp [hfront], by simpa using hbs.symm⟩
    | cons b part =>
      obtain ⟨rfl, hpart⟩ := List.cons.inj hbs
      exact .inl ⟨part, hfront, hpart⟩

/--
What holds everywhere in a list holds of its first member and everywhere behind it.
-/
theorem forall_split_cons {p : α → List α → Prop} {a : α} {as : List α} :
    (∀ front b rest, a :: as = front ++ b :: rest → p b rest) ↔
      p a as ∧ ∀ front b rest, as = front ++ b :: rest → p b rest := by
  constructor
  . intro h
    exact ⟨h [] a as rfl, fun front b rest has => h (a :: front) b rest (by rw [has]; rfl)⟩
  . rintro ⟨ha, has⟩ front b rest hsplit
    cases front with
    | nil =>
      obtain ⟨rfl, rfl⟩ := List.cons.inj hsplit
      exact ha
    | cons c front => exact has front b rest (List.cons.inj hsplit).2

end Text
end PddlOutline
