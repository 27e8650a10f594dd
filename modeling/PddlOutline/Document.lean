import PddlOutline.Text.Fragment
import PddlOutline.Text.Row

/-!
This module contains documents, the texts that sections are read from, and the normalization that
every document goes through first: comments and blank lines disappear, and the spaces and tabs that
stand next to each other become one space. The lines that remain stay apart, because the name of an
action is read from the line its keyword stands on.
-/

namespace PddlOutline
namespace Text

def uncomment (line : List Char) : List Char :=
  line.takeWhile (· ≠ ';')

def isGap (c : Char) : Bool :=
  c == ' ' || c == '\t'

def normalizeLine (line : List Char) : List Char :=
  collapse isGap (uncomment line)

def normalize (cs : List Char) : List Char :=
  List.intercalate ['\n'] (((lines cs).map normalizeLine).filter (!allBlank ·))

end Text

/--
A normalized text, with the name of the file it was read from if there is one. All offsets in it
refer to the normalized text.
-/
structure Document where
  chars : List Char
  source : Option String
deriving Repr, DecidableEq

namespace Document

def ofString (text : String) : Document :=
  ⟨Text.normalize text.toList, none⟩

def ofFile (name : String) (text : String) : Document :=
  ⟨Text.normalize text.toList, some name⟩

def text (d : Document) : String :=
  String.ofList d.chars

def fragment (d : Document) : Fragment :=
  Fragment.whole d.chars

@[simp]
theorem ofString_chars (text : String) :
    (ofString text).chars = Text.normalize text.toList := rfl

@[simp]
theorem ofFile_chars (name text : String) :
    (ofFile name text).chars = Text.normalize text.toList := rfl

end Document
end PddlOutline
