import PddlOutline.Text.Basic
import PddlOutline.Text.Extending

/-!
This module contains the way in which texts are printed for readers, and the columns that they take.
Controls are replaced by pictures of them, so that no text can change what stands around it.
-/

namespace PddlOutline
namespace Text

/--
The characters that change the direction of the text around them.
-/
def isDirectional (c : Char) : Bool :=
  inRanges [(0x202A, 0x202E), (0x2066, 0x2069)] c

/--
What is printed for a character. Line feeds stay, because they are up to those who print.
-/
def displayChar (c : Char) : List Char :=
  if c = '\n' then
    [c]
  else if c = '\t' then
    [' ', ' ', ' ', ' ']
  else if c.toNat < 0x20 then
    [Char.ofNat (0x2400 + c.toNat)]
  else if c = '\x7f' then
    ['\u2421']
  else if c = '\u200d' then
    []
  else if isDirectional c then
    ['\ufffd']
  else
    [c]

def display (cs : List Char) : List Char :=
  cs.flatMap displayChar

/--
Ranges of the characters that take no column although they extend no other: those that are ignored
by default, vowels and final consonants of Hangul syllables, and signs that stand above numbers.
-/
def weightlessRanges : List (Nat × Nat) :=
  [(0x605, 0x605), (0x61C, 0x61C), (0x70F, 0x70F), (0x890, 0x891), (0x8E2, 0x8E2),
    (0x1160, 0x11FF), (0x180E, 0x180E), (0x200B, 0x200B), (0x200D, 0x200F), (0x2060, 0x2065),
    (0x206A, 0x206F), (0x3164, 0x3164), (0xD7B0, 0xD7C6), (0xD7CB, 0xD7FB), (0xFEFF, 0xFEFF),
    (0xFFA0, 0xFFA0), (0xFFF0, 0xFFF8), (0x1BCA0, 0x1BCA3), (0x1D173, 0x1D17A), (0xE0000, 0xE001F),
    (0xE0080, 0xE00FF), (0xE01F0, 0xE0FFF)]

/--
Whether a character takes no column.
-/
def isWeightless (c : Char) : Bool :=
  isExtending c || inRanges weightlessRanges c

/--
Ranges of the characters whose width in East Asian texts is wide or full.
-/
def wideRanges : List (Nat × Nat) :=
  [(0x1100, 0x115F), (0x231A, 0x231B), (0x2329, 0x232A), (0x23E9, 0x23EC), (0x23F0, 0x23F0),
    (0x23F3, 0x23F3), (0x25FD, 0x25FE), (0x2614, 0x2615), (0x2630, 0x2637), (0x2648, 0x2653),
    (0x267F, 0x267F), (0x268A, 0x268F), (0x2693, 0x2693), (0x26A1, 0x26A1), (0x26AA, 0x26AB),
    (0x26BD, 0x26BE), (0x26C4, 0x26C5), (0x26CE, 0x26CE), (0x26D4, 0x26D4), (0x26EA, 0x26EA),
    (0x26F2, 0x26F3), (0x26F5, 0x26F5), (0x26FA, 0x26FA), (0x26FD, 0x26FD), (0x2705, 0x2705),
    (0x270A, 0x270B), (0x2728, 0x2728), (0x274C, 0x274C), (0x274E, 0x274E), (0x2753, 0x2755),
    (0x2757, 0x2757), (0x2795, 0x2797), (0x27B0, 0x27B0), (0x27BF, 0x27BF), (0x2B1B, 0x2B1C),
    (0x2B50, 0x2B50), (0x2B55, 0x2B55), (0x2E80, 0x2E99), (0x2E9B, 0x2EF3), (0x2F00, 0x2FD5),
    (0x2FF0, 0x303E), (0x3041, 0x3096), (0x3099, 0x30FF), (0x3105, 0x312F), (0x3131, 0x318E),
    (0x3190, 0x31E5), (0x31EF, 0x321E), (0x3220, 0x3247), (0x3250, 0xA48C), (0xA490, 0xA4C6),
    (0xA960, 0xA97C), (0xAC00, 0xD7A3), (0xF900, 0xFAFF), (0xFE10, 0xFE19), (0xFE30, 0xFE52),
    (0xFE54, 0xFE66), (0xFE68, 0xFE6B), (0xFF01, 0xFF60), (0xFFE0, 0xFFE6), (0x16FE0, 0x16FE4),
    (0x16FF0, 0x16FF6), (0x17000, 0x18CD5), (0x18CFF, 0x18D1E), (0x18D80, 0x18DF2),
    (0x1AFF0, 0x1AFF3), (0x1AFF5, 0x1AFFB), (0x1AFFD, 0x1AFFE), (0x1B000, 0x1B122),
    (0x1B132, 0x1B132), (0x1B150, 0x1B152), (0x1B155, 0x1B155), (0x1B164, 0x1B167),
    (0x1B170, 0x1B2FB), (0x1D300, 0x1D356), (0x1D360, 0x1D376), (0x1F004, 0x1F004),
    (0x1F0CF, 0x1F0CF), (0x1F18E, 0x1F18E), (0x1F191, 0x1F19A), (0x1F200, 0x1F202),
    (0x1F210, 0x1F23B), (0x1F240, 0x1F248), (0x1F250, 0x1F251), (0x1F260, 0x1F265),
    (0x1F300, 0x1F320), (0x1F32D, 0x1F335), (0x1F337, 0x1F37C), (0x1F37E, 0x1F393),
    (0x1F3A0, 0x1F3CA), (0x1F3CF, 0x1F3D3), (0x1F3E0, 0x1F3F0), (0x1F3F4, 0x1F3F4),
    (0x1F3F8, 0x1F43E), (0x1F440, 0x1F440), (0x1F442, 0x1F4FC), (0x1F4FF, 0x1F53D),
    (0x1F54B, 0x1F54E), (0x1F550, 0x1F567), (0x1F57A, 0x1F57A), (0x1F595, 0x1F596),
    (0x1F5A4, 0x1F5A4), (0x1F5FB, 0x1F64F), (0x1F680, 0x1F6C5), (0x1F6CC, 0x1F6CC),
    (0x1F6D0, 0x1F6D2), (0x1F6D5, 0x1F6D8), (0x1F6DC, 0x1F6DF), (0x1F6EB, 0x1F6EC),
    (0x1F6F4, 0x1F6FC), (0x1F7E0, 0x1F7EB), (0x1F7F0, 0x1F7F0), (0x1F90C, 0x1F93A),
    (0x1F93C, 0x1F945), (0x1F947, 0x1F9FF), (0x1FA70, 0x1FA7C), (0x1FA80, 0x1FA8A),
    (0x1FA8E, 0x1FAC6), (0x1FAC8, 0x1FAC8), (0x1FACD, 0x1FADC), (0x1FADF, 0x1FAEA),
    (0x1FAEF, 0x1FAF8), (0x20000, 0x2FFFD), (0x30000, 0x3FFFD)]

def isWide (c : Char) : Bool :=
  inRanges wideRanges c

/--
The columns that a character takes when it is printed.
-/
def charWidth (c : Char) : Nat :=
  if c = '\t' then
    4
  else if isWeightless c then
    0
  else if isWide c then
    2
  else
    1

def width (cs : List Char) : Nat :=
  cs.foldr (fun c columns => charWidth c + columns) 0

/--
What follows a sequence that sets colours, if a text starts with one: an escape, a bracket, numbers
between semicolons, and an `m`.
-/
def afterStyle? (cs : List Char) : Option (List Char) :=
  match cs with
  | '\x1b' :: '[' :: rest =>
    match rest.dropWhile fun c => c.isDigit || c == ';' with
    | 'm' :: rest => some rest
    | _ => none
  | _ => none

theorem length_lt_of_afterStyle? {cs rest : List Char} (h : afterStyle? cs = some rest) :
    rest.length < cs.length := by
  unfold afterStyle? at h
  split at h
  next body =>
    split at h
    next tail hdrop =>
      have hle := length_dropWhile_le (fun c => c.isDigit || c == ';') body
      simp only [hdrop, List.length_cons, Option.some.injEq] at hle h
      subst h
      simp only [List.length_cons]
      omega
    next => simp at h
  next => simp at h

/--
A text without the sequences in it that set colours.
-/
def uncolored (cs : List Char) : List Char :=
  match cs with
  | [] => []
  | c :: cs =>
    match _h : afterStyle? (c :: cs) with
    | some rest => uncolored rest
    | none => c :: uncolored cs
termination_by cs.length
decreasing_by
  . have := length_lt_of_afterStyle? _h
    simpa using this
  . simp

end Text
end PddlOutline
