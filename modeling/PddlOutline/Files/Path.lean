/-!
This module contains the paths of files. A path is kept as it was spelled, as a string of bytes
that need not be text; its file name and its parent are found without a look at any file.
-/

namespace PddlOutline

structure Path where
  bytes : List UInt8
deriving Repr, DecidableEq

namespace Path

def slash : UInt8 := 0x2F

def dot : UInt8 := 0x2E

def decode? (bytes : List UInt8) : Option String :=
  String.fromUTF8? ⟨bytes.toArray⟩

def encode (s : String) : List UInt8 :=
  s.toUTF8.data.toList

@[simp]
theorem decode?_encode (s : String) : decode? (encode s) = some s := by
  have h : ByteArray.mk (encode s).toArray = s.toByteArray := by simp [encode]
  unfold decode? String.fromUTF8?
  rw [h, dif_pos s.isValidUTF8]
  rfl

def ofString (s : String) : Path :=
  ⟨encode s⟩

/--
The ranges of the bytes that follow the first byte of a character.
-/
def followers (lead : UInt8) : List (UInt8 × UInt8) :=
  let any := (0x80, 0xBF)
  if lead < 0xC2 then
    []
  else if lead < 0xE0 then
    [any]
  else if lead = 0xE0 then
    [(0xA0, 0xBF), any]
  else if lead = 0xED then
    [(0x80, 0x9F), any]
  else if lead < 0xF0 then
    [any, any]
  else if lead = 0xF0 then
    [(0x90, 0xBF), any, any]
  else if lead < 0xF4 then
    [any, any, any]
  else if lead = 0xF4 then
    [(0x80, 0x8F), any, any]
  else
    []

/--
Bytes as text. Where they are none, as many as could be the start of a character show as one
replacement character.
-/
def lossy (bytes : List UInt8) : String :=
  match bytes with
  | [] => ""
  | lead :: rest =>
    let fits := fun ((first, last), byte) => first ≤ byte && byte ≤ last
    let tail := (((followers lead).zip rest).takeWhile fits).map Prod.snd
    (decode? (lead :: tail)).getD "\uFFFD" ++ lossy (rest.drop tail.length)
termination_by bytes.length
decreasing_by
  simp only [List.length_drop, List.length_cons]
  omega

/--
The path as text.
-/
def text (p : Path) : String :=
  (decode? p.bytes).getD (lossy p.bytes)

@[simp]
theorem text_ofString (s : String) : (ofString s).text = s := by
  simp [text, ofString]

example : text ⟨[0x61, 0xFF, 0xE2, 0x82, 0x62, 0xC3, 0xA9]⟩ = "a\uFFFD\uFFFDbé" := by
  decide +kernel

/--
What a path begins with before its first segment: a slash if it is absolute, or else a dot that
stands for the current directory.
-/
def lead (p : Path) : List UInt8 :=
  match p.bytes with
  | c :: rest =>
    if c = slash then
      [slash]
    else if c = dot ∧ (rest = [] ∨ rest.head? = some slash) then
      [dot]
    else
      []
  | [] => []

def segments (p : Path) : List (List UInt8) :=
  (p.bytes.drop p.lead.length).splitOn slash

/--
Whether a segment stays in the directory it is looked up in.
-/
def isIdle (segment : List UInt8) : Bool :=
  segment == [] || segment == [dot]

def isUp (segment : List UInt8) : Bool :=
  segment == [dot, dot]

def trimEnd (segments : List (List UInt8)) : List (List UInt8) :=
  (segments.reverse.dropWhile isIdle).reverse

def ofSegments (lead : List UInt8) (segments : List (List UInt8)) : Path :=
  ⟨lead ++ List.intercalate [slash] segments⟩

def fileName? (p : Path) : Option (List UInt8) :=
  match (trimEnd p.segments).getLast? with
  | some name => if isUp name then none else some name
  | none => none

/--
The path without its last segment. The current directory `.` has the empty path as its parent.
-/
def parent? (p : Path) : Option Path :=
  match trimEnd p.segments with
  | [] => if p.lead = [dot] then some ⟨[]⟩ else none
  | s :: rest => some (ofSegments p.lead (trimEnd (s :: rest).dropLast))

/--
The path `q` from the directory `p`. An absolute path does not depend on it.
-/
def join (p q : Path) : Path :=
  if q.bytes.head? = some slash then
    q
  else if p.bytes = [] ∨ p.bytes.getLast? = some slash then
    ⟨p.bytes ++ q.bytes⟩
  else
    ⟨p.bytes ++ slash :: q.bytes⟩

end Path
end PddlOutline
