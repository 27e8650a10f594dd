import PddlOutline.Diagnostic.Basic
import PddlOutline.Text.Position

/-!
This module contains the plain text of diagnostics. The rows that a span covers are shown with
their numbers; carets stand under the span if it lies on one row, and a bracket at the left connects
its first and its last character otherwise. Of a span over many rows the middle is left out. Rows
are taken to have at most 100 characters: longer ones would be cut, which is not done here.
-/

namespace PddlOutline

/--
A span with all that is needed to show it: the rows it covers, where it starts, and where it stops.
-/
structure Excerpt where
  source : Option String
  first : Position
  stop : Position
  rows : List (List Char)
  label : String
deriving Repr, DecidableEq

namespace Annotation

def excerpt? (a : Annotation) : Option Excerpt := do
  let rows := Text.rows a.document.chars
  let first ← Text.position? 0 rows a.span.start
  let stop ← Text.position? 0 rows a.span.stop
  return {
    source := a.document.source
    first, stop
    rows := ((rows.drop first.row).take (stop.row + 1 - first.row)).map Row.chars
    label := a.label
  }

end Annotation

namespace Excerpt

def spaces (n : Nat) : String :=
  String.ofList (List.replicate n ' ')

/--
The digits of the number of the row with the last character of the span. A span may stop at the
start of the next row, behind a line feed.
-/
def numberWidth (e : Excerpt) : Nat :=
  (toString (if e.stop.isRowStart then e.stop.row else e.stop.row + 1)).length

/--
A row behind its number and the marks of the span, with no space before a row that shows nothing.
-/
def numbered (e : Excerpt) (row : Nat) (marks : String) (chars : List Char) : String :=
  let digits := toString (row + 1)
  let number := spaces (e.numberWidth - digits.length) ++ digits
  let shown := String.ofList (Text.display chars)
  number ++ spaces (e.numberWidth + 1 - number.length) ++ "|" ++ marks
    ++ (if shown.isEmpty then "" else " " ++ shown)

def unnumbered (e : Excerpt) : String :=
  spaces e.numberWidth ++ " |"

/--
Names and labels are printed as they are, but without colours.
-/
def plain (text : String) : String :=
  String.ofList (Text.uncolored text.toList)

def locationLines (e : Excerpt) : List String :=
  match e.source with
  | some name =>
    [spaces e.numberWidth ++ "--> " ++ plain name ++ ":" ++ toString (e.first.row + 1) ++ ":"
      ++ toString (e.first.column + 1)]
  | none => []

def labelText (e : Excerpt) : String :=
  if e.label.isEmpty then "" else " " ++ plain e.label

def startColumn (e : Excerpt) : Nat :=
  Text.width e.first.before

def singleLines (e : Excerpt) (row : List Char) : List String :=
  let carets := List.replicate (max 1 (Text.width e.stop.before - e.startColumn)) '^'
  [e.numbered e.first.row "" row,
    e.unnumbered ++ " " ++ spaces e.startColumn ++ String.ofList carets ++ e.labelText]

def underscores (n : Nat) : String :=
  String.ofList (List.replicate n '_')

/--
The first row of a span over several rows. If something stands before the span, its first character
gets a mark of its own.
-/
def openingLines (e : Excerpt) (row : List Char) : List String :=
  if Text.allBlank ((Text.display row).take e.startColumn) then
    [e.numbered e.first.row " /" row]
  else
    [e.numbered e.first.row "  " row,
      e.unnumbered ++ "  " ++ underscores (e.startColumn + 1) ++ "^"]

def isComment (row : List Char) : Bool :=
  match row with
  | '/' :: '/' :: c :: _ => c ≠ '/' && c ≠ '!'
  | ['/', '/'] => true
  | _ => false

/--
Whether a row has nothing on it but a comment or a bracket.
-/
def isFiller (row : List Char) : Bool :=
  let inner := Text.trim row
  isComment inner
    || inner.length ≤ 1 && inner.all (['(', ')', '[', ']', '\x7b', '\x7d'].contains ·)

/--
How many rows are shown at the start of a span: up to four, less the fillers at their end.
-/
def headSize (rows : List (List Char)) : Nat :=
  max 1 ((rows.dropLast.take 4).reverse.dropWhile isFiller).length

/--
How many rows are shown at the end of a span: the last one, and the one before it if it is far
from the start and no filler.
-/
def tailSize (rows : List (List Char)) : Nat :=
  if 7 ≤ rows.length && !(rows.dropLast.getLast?.any isFiller) then 2 else 1

def gapLine (e : Excerpt) : String :=
  "..." ++ spaces e.numberWidth ++ "|"

/--
The rows after the first one. A single row is never left out.
-/
def followingLines (e : Excerpt) : List String :=
  let covered := (e.rows.zipIdx e.first.row).tail.map fun (row, index) =>
    e.numbered index " |" row
  let head := headSize e.rows - 1
  let tail := tailSize e.rows
  if covered.length ≤ head + 1 + tail then
    covered
  else
    covered.take head ++ e.gapLine :: covered.drop (covered.length - tail)

/--
The mark under the last character. If the span stops behind a part of a line break, the mark stands
under that part, and it never stands before the first column.
-/
def closingLine (e : Excerpt) : String :=
  let column := max 1 (Text.width e.stop.before + e.stop.beyond.toNat)
  e.unnumbered ++ " |" ++ underscores column ++ "^" ++ e.labelText

def bodyLines (e : Excerpt) : List String :=
  match e.rows with
  | [] => []
  | [row] => e.singleLines row
  | row :: _ => e.openingLines row ++ e.followingLines ++ [e.closingLine]

/--
The lines that show a span whose rows have at most 100 characters.
-/
def lines (e : Excerpt) : List String :=
  e.locationLines ++ e.unnumbered :: e.bodyLines

end Excerpt

namespace Diagnostic

/--
The printed title. Its further lines start below the first one, which stands behind the severity.
-/
def titleLines (d : Diagnostic) : List String :=
  match (Text.display d.title.toList).splitOn '\n' with
  | [] => []
  | first :: rest =>
    let indent := Excerpt.spaces (d.severity.label.length + 2)
    String.ofList first :: rest.map fun line => indent ++ String.ofList line

def body (d : Diagnostic) : String :=
  match d.annotation.bind Annotation.excerpt? with
  | some excerpt => String.intercalate "\n" (d.titleLines ++ excerpt.lines)
  | none => String.intercalate "\n" d.titleLines

def render (d : Diagnostic) : String :=
  d.severity.label ++ ": " ++ d.body

end Diagnostic

end PddlOutline
