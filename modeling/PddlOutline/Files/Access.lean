import PddlOutline.Document
import PddlOutline.Files.Path

/-!
This module contains the access to files that the program needs, in a monad of which it does not
know more than that.
-/

namespace PddlOutline

inductive FileError
  | notFound
  | isADirectory
  | notADirectory
  | notText
  | other (message : String)
deriving Repr, DecidableEq

namespace FileError

def message : FileError → String
  | .notFound => "No such file or directory (os error 2)"
  | .isADirectory => "Is a directory (os error 21)"
  | .notADirectory => "Not a directory (os error 20)"
  | .notText => "stream did not contain valid UTF-8"
  | .other message => message

end FileError

structure FileAccess (m : Type → Type) where
  reaches : Path → m Bool
  /-- The absolute path of a file without detours. -/
  resolve : Path → m (Except FileError Path)
  read : Path → m (Except FileError (List UInt8))

namespace FileAccess

variable {m : Type → Type} [Monad m]

def document (path : Path) (content : Except FileError (List UInt8)) :
    Except FileError Document := do
  match Path.decode? (← content) with
  | some text => return Document.ofFile path.text text
  | none => throw .notText

def load (files : FileAccess m) (path : Path) : m (Except FileError Document) := do
  let content ← files.read path
  return document path content

def loadAll (files : FileAccess m) : List Path → m (Except FileError (List Document))
  | [] => return .ok []
  | path :: paths => do
    match ← files.load path with
    | .error e => return .error e
    | .ok d =>
      let ds ← files.loadAll paths
      return ds.map (d :: ·)

def firstReached? (files : FileAccess m) : List Path → m (Option Path)
  | [] => return none
  | path :: paths => do
    if ← files.reaches path then
      return some path
    else
      files.firstReached? paths

def firstMissing? (files : FileAccess m) : List Path → m (Option Path)
  | [] => return none
  | path :: paths => do
    if ← files.reaches path then
      files.firstMissing? paths
    else
      return some path

end FileAccess
end PddlOutline
