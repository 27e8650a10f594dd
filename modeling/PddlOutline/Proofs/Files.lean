import Mathlib.Data.List.Forall2
import PddlOutline.Files.Discovery
import PddlOutline.Files.FileTree
import PddlOutline.Proofs.Outcome

/-!
This module contains what a tree of files has to offer: the paths that lead somewhere, the files
that hold text and the others, and domains that are found from an absolute path.
-/

namespace PddlOutline

namespace Path

def IsAbsolute (p : Path) : Prop :=
  p.bytes.head? = some slash

instance (p : Path) : Decidable p.IsAbsolute :=
  inferInstanceAs (Decidable (p.bytes.head? = some slash))

variable {p q : Path}

theorem encode_append (s s' : String) : encode (s ++ s') = encode s ++ encode s' := by
  simp [encode]

theorem IsAbsolute.join (h : p.IsAbsolute) (q : Path) : (p.join q).IsAbsolute := by
  obtain ⟨rest, hbytes⟩ : ∃ rest, p.bytes = slash :: rest := List.head?_eq_some_iff.mp h
  unfold Path.join
  split
  next hq => exact hq
  next =>
    split
    . rw [IsAbsolute, hbytes]
      rfl
    . rw [IsAbsolute, hbytes]
      rfl

end Path

namespace Discovery

variable {p problem : Path}

end Discovery

namespace FileTree

variable {t : FileTree} {p : Path} {ps : List Path} {d : Document} {e : FileError}

/--
Whether the file at a path holds the text of a document.
-/
def Holds (t : FileTree) (p : Path) (d : Document) : Prop :=
  ∃ text, t.read p = .ok (Path.encode text) ∧ d = Document.ofFile p.text text

/--
Why there is no text at a path.
-/
inductive Fails (t : FileTree) (p : Path) : FileError → Prop
  | unread {e : FileError} (h : t.read p = .error e) : Fails t p e
  | notText {content : List UInt8} (h : t.read p = .ok content)
    (hcontent : ∀ text, content ≠ Path.encode text) : Fails t p .notText

theorem run_firstReached? (t : FileTree) (ps : List Path) :
    (t.access.firstReached? ps).run = ps.find? t.reaches := by
  induction ps with
  | nil => rfl
  | cons p ps ih =>
    rw [List.find?_cons, ← ih]
    show Id.run (if t.reaches p then _ else _) = _
    cases t.reaches p with
    | true => rfl
    | false => rfl

end FileTree
end PddlOutline
